import Codrex.Lib.BytePositions
import Codrex.Lib.LineEndings
import Codrex.Lib.Spans
import Mathlib.Logic.Function.Basic

/-!
# What is submitted (`tui/src/bottom_pane/chat_composer.rs`)

Large pastes stand in the text as placeholders, and are put in when the text is submitted. The text elements are those
of `protocol/src/user_input.rs`. A function that slices gives `none` where the slice panics.
-/

namespace Codrex.Composer.Submission

open Text

structure TextElement where
  byteRange : Span
  storedPlaceholder : Option Str
  deriving DecidableEq

/-- The stored placeholder, or the text of the range. -/
def TextElement.placeholder (elem : TextElement) (text : Str) : Option Str :=
  elem.storedPlaceholder <|> slice text elem.byteRange.start elem.byteRange.stop

def sortByStart (elements : List TextElement) : List TextElement :=
  elements.insertionSort fun elem next => elem.byteRange.start ≤ next.byteRange.start

/-! ## Expanding -/

/-- The payloads that are left by placeholder. -/
abbrev Queues := Str → List Str

def indexPastes (pendingPastes : List (Str × Str)) : Queues :=
  pendingPastes.foldl (fun queues paste => Function.update queues paste.1 (queues paste.1 ++ [paste.2])) fun _ => []

def popFront (queues : Queues) (placeholder : Str) : Option (Str × Queues) :=
  match queues placeholder with
  | [] => none
  | actual :: rest => some (actual, Function.update queues placeholder rest)

structure Rebuild where
  pendingByPlaceholder : Queues
  rebuilt : Str
  rebuiltElements : List TextElement
  cursor : Nat

def rebuildStep (text : Str) (rebuild : Rebuild) (elem : TextElement) : Option Rebuild :=
  let start := min elem.byteRange.start (byteLen text)
  let stop := min elem.byteRange.stop (byteLen text)
  if stop < start then some rebuild
  else
    (if rebuild.cursor < start then slice text rebuild.cursor start else some []).bind fun between =>
      (slice text start stop).map fun elemText =>
        let rebuilt := rebuild.rebuilt ++ between
        let placeholder := elem.placeholder text
        match placeholder.bind (popFront rebuild.pendingByPlaceholder) with
        | some (actual, pendingByPlaceholder) =>
            { rebuild with pendingByPlaceholder, rebuilt := rebuilt ++ actual, cursor := stop }
        | none =>
            { rebuild with
              rebuilt := rebuilt ++ elemText
              rebuiltElements := rebuild.rebuiltElements ++
                [⟨⟨byteLen rebuilt, byteLen (rebuilt ++ elemText)⟩, placeholder <|> some elemText⟩]
              cursor := stop }

def expandPendingPastes (text : Str) (elements : List TextElement) (pendingPastes : List (Str × Str)) :
    Option (Str × List TextElement) :=
  if pendingPastes = [] ∨ elements = [] then some (text, elements)
  else
    ((sortByStart elements).foldlM (rebuildStep text) ⟨indexPastes pendingPastes, [], [], 0⟩).bind fun rebuild =>
      (if rebuild.cursor < byteLen text then slice text rebuild.cursor (byteLen text) else some []).map fun rest =>
        (rebuild.rebuilt ++ rest, rebuild.rebuiltElements)

/-! ## Trimming -/

def trimTextElements (original trimmed : Str) (elements : List TextElement) : List TextElement :=
  if trimmed = [] ∨ elements = [] then []
  else
    let trimmedStart := byteLen original - byteLen (trimStart original)
    let trimmedEnd := trimmedStart + byteLen trimmed
    elements.filterMap fun elem =>
      let start := elem.byteRange.start
      let stop := elem.byteRange.stop
      if stop ≤ trimmedStart ∨ trimmedEnd ≤ start then none
      else
        let newStart := start - trimmedStart
        let newStop := min (stop - trimmedStart) (byteLen trimmed)
        if newStop ≤ newStart then none else some ⟨⟨newStart, newStop⟩, slice trimmed newStart newStop⟩

/-- The text and the elements that `prepare_submission_text_with_options` goes on with. -/
def prepareText (text : Str) (elements : List TextElement) (pendingPastes : List (Str × Str)) :
    Option (Str × List TextElement) :=
  (if pendingPastes = [] then some (text, elements) else expandPendingPastes text elements pendingPastes).map
    fun (expandedInput, elements) => (trim expandedInput, trimTextElements expandedInput (trim expandedInput) elements)

/-! ## Parts -/

/-- An element, with the text between the one before and it. -/
structure Part where
  gap : Str
  own : Str
  stored : Option Str

/-- The placeholder of the element. -/
def Part.label (part : Part) : Str := part.stored.getD part.own

def spell (parts : List Part) : Str := parts.flatMap fun part => part.gap ++ part.own

/-- The elements of the parts of a text, behind what stands before them. -/
def elementsOf : Str → List Part → List TextElement
  | _, [] => []
  | before, part :: rest =>
      ⟨⟨byteLen (before ++ part.gap), byteLen (before ++ part.gap ++ part.own)⟩, part.stored⟩ ::
        elementsOf (before ++ part.gap ++ part.own) rest

attribute [local simp] elementsOf

def payloads (pendingPastes : List (Str × Str)) (placeholder : Str) : List Str :=
  (pendingPastes.filter fun paste => paste.1 = placeholder).map Prod.snd

/-- The `k`-th part of a placeholder gets its `k`-th payload; the labels are those of the parts in front. -/
def assign (pendingPastes : List (Str × Str)) : List Str → List Part → List (Part × Option Str)
  | _, [] => []
  | labels, part :: rest =>
      (part, (payloads pendingPastes part.label)[labels.count part.label]?) ::
        assign pendingPastes (labels ++ [part.label]) rest

attribute [local simp] assign

def expandedText (cut : List (Part × Option Str)) : Str :=
  cut.flatMap fun (part, payload) => part.gap ++ payload.getD part.own

/-- The elements that have no payload, where they stand in the expanded text. -/
def keptElements : Str → List (Part × Option Str) → List TextElement
  | _, [] => []
  | before, (part, some payload) :: rest => keptElements (before ++ part.gap ++ payload) rest
  | before, (part, none) :: rest =>
      ⟨⟨byteLen (before ++ part.gap), byteLen (before ++ part.gap ++ part.own)⟩, some part.label⟩ ::
        keptElements (before ++ part.gap ++ part.own) rest

attribute [local simp] keptElements

/-- The elements have a length, lie between characters of the text, and share no position. -/
structure Placed (text : Str) (elements : List TextElement) : Prop where
  disjoint : elements.Pairwise fun elem other => elem.byteRange.Disjoint other.byteRange
  nonempty : ∀ elem ∈ elements, elem.byteRange.start < elem.byteRange.stop
  starts : ∀ elem ∈ elements, Boundary text elem.byteRange.start
  stops : ∀ elem ∈ elements, Boundary text elem.byteRange.stop

/-- What is left of an element between two positions, counted from the first one. -/
def leftOf (original : Str) (within : Span) (elem : TextElement) : Option TextElement :=
  let start := max elem.byteRange.start within.start
  let stop := min elem.byteRange.stop within.stop
  if stop ≤ start then none
  else some ⟨⟨start - within.start, stop - within.start⟩, slice original start stop⟩

variable {text before rest tail : Str} {elements : List TextElement} {parts : List Part} {part : Part}
  {pendingPastes : List (Str × Str)} {labels : List Str}

theorem sortByStart_perm (elements : List TextElement) : (sortByStart elements).Perm elements :=
  List.perm_insertionSort _ _

theorem Placed.apart (h : Placed text elements) : Span.Apart ((sortByStart elements).map TextElement.byteRange) := by
  refine Span.apart_insertionSort TextElement.byteRange (h.disjoint.imp_of_mem ?_) h.nonempty
  intro elem other helem hother hdisjoint
  exact hdisjoint.apart (h.nonempty elem helem) (h.nonempty other hother)

/-- Elements one behind the other are those of parts. -/
theorem exists_parts (hapart : Span.Apart (elements.map TextElement.byteRange))
    (hne : ∀ elem ∈ elements, elem.byteRange.start < elem.byteRange.stop)
    (hstarts : ∀ elem ∈ elements, Boundary (before ++ rest) elem.byteRange.start)
    (hstops : ∀ elem ∈ elements, Boundary (before ++ rest) elem.byteRange.stop)
    (hbefore : ∀ elem ∈ elements, byteLen before ≤ elem.byteRange.start) :
    ∃ parts tail, rest = spell parts ++ tail ∧ elements = elementsOf before parts ∧ ∀ part ∈ parts, part.own ≠ [] := by
  induction elements generalizing before rest with
  | nil => exact ⟨[], rest, rfl, rfl, nofun⟩
  | cons elem elements ih =>
      have hmem := List.mem_cons_self (a := elem) (l := elements)
      obtain ⟨front, own, after, htext, hstart, hstop⟩ :=
        exists_cut (hstarts elem hmem) (hstops elem hmem) (Nat.le_of_lt (hne elem hmem))
      rw [List.append_assoc] at htext
      obtain ⟨gap, rfl, hrest⟩ := exists_between htext (hstart.symm ▸ hbefore elem hmem)
      have hsame : before ++ rest = before ++ gap ++ own ++ after := by rw [htext, ← List.append_assoc]
      have hown : own ≠ [] := by
        rintro rfl
        have hlt := hne elem hmem
        rw [List.append_nil] at hstop
        omega
      obtain ⟨hfirst, hapart⟩ := List.pairwise_cons.mp hapart
      obtain ⟨parts, tail, hafter, helements, howns⟩ := @ih (before ++ gap ++ own) after hapart
        (fun other hother => hne other (List.mem_cons_of_mem _ hother))
        (fun other hother => hsame ▸ hstarts other (List.mem_cons_of_mem _ hother))
        (fun other hother => hsame ▸ hstops other (List.mem_cons_of_mem _ hother))
        (fun other hother => hstop ▸ hfirst _ (List.mem_map_of_mem hother))
      refine ⟨⟨gap, own, elem.storedPlaceholder⟩ :: parts, tail, ?_, ?_, ?_⟩
      · rw [hrest, hafter]
        simp [spell]
      · rw [elementsOf, hstart, hstop, ← helements]
      · intro part hpart
        rcases List.mem_cons.mp hpart with rfl | hpart
        · exact hown
        · exact howns part hpart

theorem Placed.exists_parts (h : Placed text elements) : ∃ parts tail, text = spell parts ++ tail ∧
    sortByStart elements = elementsOf [] parts ∧ ∀ part ∈ parts, part.own ≠ [] := by
  have hmem {elem : TextElement} : elem ∈ sortByStart elements → elem ∈ elements :=
    (sortByStart_perm elements).mem_iff.mp
  exact Submission.exists_parts h.apart (fun elem helem => h.nonempty elem (hmem helem))
    (fun elem helem => h.starts elem (hmem helem)) (fun elem helem => h.stops elem (hmem helem)) fun _ _ => Nat.zero_le _

/-! ## Rebuilding -/

theorem indexPastes_eq (pendingPastes : List (Str × Str)) (placeholder : Str) :
    indexPastes pendingPastes placeholder = payloads pendingPastes placeholder := by
  induction pendingPastes using List.reverseRecOn with
  | nil => rfl
  | append_singleton front paste ih =>
      rw [indexPastes, List.foldl_append] at *
      simp only [List.foldl_cons, List.foldl_nil, payloads, List.filter_append, List.map_append] at ih ⊢
      by_cases hsame : paste.1 = placeholder
      · rw [← hsame] at ih ⊢
        simp [ih]
      · rw [Function.update_of_ne (Ne.symm hsame), ih]
        simp [hsame]

/-- The text from the cursor to an element. -/
theorem slice_gap (before gap after : Str) :
    (if byteLen before < byteLen (before ++ gap) then slice (before ++ gap ++ after) (byteLen before) (byteLen (before ++ gap))
      else some []) = some gap := by
  split
  · exact slice_append before gap after
  · next hnot =>
      rw [byteLen_append] at hnot
      have hnil : gap = [] := byteLen_eq_zero.mp (by omega)
      rw [hnil]

theorem rebuildStep_eq {rebuild : Rebuild} (htext : text = before ++ part.gap ++ part.own ++ rest)
    (hcursor : rebuild.cursor = byteLen before) : rebuildStep text rebuild
      ⟨⟨byteLen (before ++ part.gap), byteLen (before ++ part.gap ++ part.own)⟩, part.stored⟩ =
    some (match popFront rebuild.pendingByPlaceholder part.label with
      | some (actual, pendingByPlaceholder) =>
          { rebuild with
            pendingByPlaceholder
            rebuilt := rebuild.rebuilt ++ part.gap ++ actual
            cursor := byteLen (before ++ part.gap ++ part.own) }
      | none =>
          { rebuild with
            rebuilt := rebuild.rebuilt ++ part.gap ++ part.own
            rebuiltElements := rebuild.rebuiltElements ++
              [⟨⟨byteLen (rebuild.rebuilt ++ part.gap), byteLen (rebuild.rebuilt ++ part.gap ++ part.own)⟩, some part.label⟩]
            cursor := byteLen (before ++ part.gap ++ part.own) }) := by
  have hown : slice text (byteLen (before ++ part.gap)) (byteLen (before ++ part.gap ++ part.own)) = some part.own := by
    rw [htext]
    exact slice_append (before ++ part.gap) part.own rest
  have hstop : byteLen (before ++ part.gap ++ part.own) ≤ byteLen text := by
    rw [htext]
    exact byteLen_le_of_starts (List.prefix_append _ _)
  have hstart : byteLen (before ++ part.gap) ≤ byteLen (before ++ part.gap ++ part.own) :=
    byteLen_le_of_starts (List.prefix_append _ _)
  have hgap := slice_gap before part.gap (part.own ++ rest)
  rw [← List.append_assoc, ← htext] at hgap
  have hlabel : part.stored.or (some part.own) = some part.label := by
    rw [Part.label]
    cases part.stored <;> rfl
  simp only [rebuildStep, Nat.min_eq_left hstop, Nat.min_eq_left (hstart.trans hstop), if_neg (Nat.not_lt.mpr hstart),
    hcursor, hgap, hown, Option.bind_some, Option.map_some, TextElement.placeholder, Option.orElse_eq_orElse,
    Option.orElse_eq_or, hlabel]
  cases popFront rebuild.pendingByPlaceholder part.label <;> rfl

/-- The loop puts payloads in for labels in turn, and moves the elements that get none. -/
theorem rebuild_elementsOf {rebuild : Rebuild} (htext : text = before ++ (spell parts ++ tail))
    (hcursor : rebuild.cursor = byteLen before) (hqueues : ∀ placeholder, rebuild.pendingByPlaceholder placeholder =
      (payloads pendingPastes placeholder).drop (labels.count placeholder)) :
    ∃ pendingByPlaceholder, (elementsOf before parts).foldlM (rebuildStep text) rebuild = some
      ⟨pendingByPlaceholder, rebuild.rebuilt ++ expandedText (assign pendingPastes labels parts),
        rebuild.rebuiltElements ++ keptElements rebuild.rebuilt (assign pendingPastes labels parts),
        byteLen (before ++ spell parts)⟩ := by
  induction parts generalizing before labels rebuild with
  | nil =>
      refine ⟨rebuild.pendingByPlaceholder, ?_⟩
      simp [elementsOf, assign, expandedText, keptElements, spell, ← hcursor]
  | cons part parts ih =>
      have hparts : text = before ++ part.gap ++ part.own ++ (spell parts ++ tail) := by
        rw [htext]
        simp [spell]
      have hspell : byteLen (before ++ part.gap ++ part.own ++ spell parts) = byteLen (before ++ spell (part :: parts)) := by
        simp [spell]
      have hqueue := hqueues part.label
      have hhead : (payloads pendingPastes part.label)[labels.count part.label]? =
          (rebuild.pendingByPlaceholder part.label).head? := by
        rw [hqueue, List.head?_drop]
      have hcount : ∀ placeholder, (labels ++ [part.label]).count placeholder =
          labels.count placeholder + if part.label = placeholder then 1 else 0 := by
        intro placeholder
        rw [List.count_append, List.count_singleton]
        simp
      rw [elementsOf, List.foldlM_cons, rebuildStep_eq hparts hcursor, assign, hhead, popFront]
      cases hpending : rebuild.pendingByPlaceholder part.label with
      | nil =>
          obtain ⟨pendingByPlaceholder, hloop⟩ := @ih (before ++ part.gap ++ part.own) (labels ++ [part.label])
            { rebuild with
              rebuilt := rebuild.rebuilt ++ part.gap ++ part.own
              rebuiltElements := rebuild.rebuiltElements ++ [⟨⟨byteLen (rebuild.rebuilt ++ part.gap),
                byteLen (rebuild.rebuilt ++ part.gap ++ part.own)⟩, some part.label⟩]
              cursor := byteLen (before ++ part.gap ++ part.own) } hparts rfl (by
            intro placeholder
            rw [hcount]
            split
            · next heq =>
                subst heq
                have hdrop := hqueue.symm.trans hpending
                rw [← List.drop_drop, hdrop]
                exact hpending
            · exact hqueues placeholder)
          refine ⟨pendingByPlaceholder, hloop.trans ?_⟩
          rw [hspell]
          simp [expandedText, keptElements]
      | cons actual queue =>
          obtain ⟨pendingByPlaceholder, hloop⟩ := @ih (before ++ part.gap ++ part.own) (labels ++ [part.label])
            { rebuild with
              pendingByPlaceholder := Function.update rebuild.pendingByPlaceholder part.label queue
              rebuilt := rebuild.rebuilt ++ part.gap ++ actual
              cursor := byteLen (before ++ part.gap ++ part.own) } hparts rfl (by
            intro placeholder
            rw [hcount]
            split
            · next heq =>
                subst heq
                have hdrop := hqueue.symm.trans hpending
                rw [← List.drop_drop, hdrop]
                simp
            · next hne =>
                show Function.update rebuild.pendingByPlaceholder part.label queue placeholder = _
                rw [Function.update_of_ne (Ne.symm hne)]
                exact hqueues placeholder)
          refine ⟨pendingByPlaceholder, hloop.trans ?_⟩
          rw [hspell]
          simp [expandedText, keptElements]

/-! ## The kept elements -/

variable {cut : List (Part × Option Str)}

/-- The kept elements spell in the expanded text what they did before. -/
theorem keptElements_spell (before tail : Str) (cut : List (Part × Option Str)) :
    (keptElements before cut).map (fun elem =>
      slice (before ++ expandedText cut ++ tail) elem.byteRange.start elem.byteRange.stop) =
    (cut.filter fun found => found.2 = none).map fun found => some found.1.own := by
  induction cut generalizing before with
  | nil => rfl
  | cons found cut ih =>
      obtain ⟨part, payload⟩ := found
      cases payload with
      | none =>
          have hrest := ih (before ++ part.gap ++ part.own)
          have hown := slice_append (before ++ part.gap) part.own (expandedText cut ++ tail)
          have hsame : before ++ expandedText ((part, none) :: cut) ++ tail =
              before ++ part.gap ++ part.own ++ (expandedText cut ++ tail) := by
            simp [expandedText]
          rw [hsame, keptElements, List.map_cons, hown, List.filter_cons_of_pos (by simp), List.map_cons,
            ← List.append_assoc, hrest]
      | some payload =>
          have hrest := ih (before ++ part.gap ++ payload)
          have hsame : before ++ expandedText ((part, some payload) :: cut) ++ tail =
              before ++ part.gap ++ payload ++ expandedText cut ++ tail := by
            simp [expandedText]
          rw [hsame, keptElements, hrest, List.filter_cons_of_neg (by simp)]

theorem keptElements_ends (before tail : Str) (hown : ∀ found ∈ cut, found.1.own ≠ []) :
    ∀ elem ∈ keptElements before cut, elem.byteRange.start < elem.byteRange.stop ∧
      byteLen before ≤ elem.byteRange.start ∧ Boundary (before ++ expandedText cut ++ tail) elem.byteRange.start ∧
      Boundary (before ++ expandedText cut ++ tail) elem.byteRange.stop := by
  induction cut generalizing before with
  | nil => nofun
  | cons found cut ih =>
      obtain ⟨part, payload⟩ := found
      have hrest : ∀ other ∈ cut, other.1.own ≠ [] := fun other hother => hown other (List.mem_cons_of_mem _ hother)
      cases payload with
      | none =>
          have hsame : before ++ expandedText ((part, none) :: cut) ++ tail =
              before ++ part.gap ++ part.own ++ expandedText cut ++ tail := by
            simp [expandedText]
          intro elem helem
          rw [hsame]
          rcases List.mem_cons.mp helem with rfl | helem
          · have hpos : 0 < byteLen part.own := by
              refine Nat.pos_of_ne_zero fun hzero => ?_
              exact hown (part, none) (List.mem_cons_self ..) (byteLen_eq_zero.mp hzero)
            refine ⟨?_, byteLen_le_of_starts (List.prefix_append _ _), ?_, ?_⟩
            · show byteLen (before ++ part.gap) < byteLen (before ++ part.gap ++ part.own)
              rw [byteLen_append _ part.own]
              omega
            · have hstart := boundary_append (before ++ part.gap) (part.own ++ (expandedText cut ++ tail))
              simpa using hstart
            · have hstop := boundary_append (before ++ part.gap ++ part.own) (expandedText cut ++ tail)
              simpa using hstop
          · obtain ⟨hlt, hle, hstart, hstop⟩ := ih _ hrest elem helem
            refine ⟨hlt, le_trans ?_ hle, hstart, hstop⟩
            rw [List.append_assoc]
            exact byteLen_le_of_starts (List.prefix_append _ _)
      | some payload =>
          have hsame : before ++ expandedText ((part, some payload) :: cut) ++ tail =
              before ++ part.gap ++ payload ++ expandedText cut ++ tail := by
            simp [expandedText]
          intro elem helem
          rw [hsame]
          obtain ⟨hlt, hle, hstart, hstop⟩ := ih _ hrest elem helem
          refine ⟨hlt, le_trans ?_ hle, hstart, hstop⟩
          rw [List.append_assoc]
          exact byteLen_le_of_starts (List.prefix_append _ _)

theorem keptElements_apart (hown : ∀ found ∈ cut, found.1.own ≠ []) :
    Span.Apart ((keptElements before cut).map TextElement.byteRange) := by
  induction cut generalizing before with
  | nil => exact List.Pairwise.nil
  | cons found cut ih =>
      obtain ⟨part, payload⟩ := found
      have hrest : ∀ other ∈ cut, other.1.own ≠ [] := fun other hother => hown other (List.mem_cons_of_mem _ hother)
      cases payload with
      | none =>
          refine List.pairwise_cons.mpr ⟨?_, ih hrest⟩
          intro range hrange
          obtain ⟨elem, helem, rfl⟩ := List.mem_map.mp hrange
          exact (keptElements_ends _ [] hrest elem helem).2.1
      | some payload => exact ih hrest

/-- Without payloads the elements stay where they are. -/
theorem keptElements_ranges (before : Str) (labels : List Str) (parts : List Part) :
    (keptElements before (assign [] labels parts)).map TextElement.byteRange =
      (elementsOf before parts).map TextElement.byteRange := by
  induction parts generalizing before labels with
  | nil => rfl
  | cons part parts ih =>
      simp only [assign, payloads, List.filter_nil, List.map_nil, List.getElem?_nil, keptElements, elementsOf,
        List.map_cons, ih]

theorem expandedText_nil (labels : List Str) (parts : List Part) : expandedText (assign [] labels parts) = spell parts := by
  induction parts generalizing labels with
  | nil => rfl
  | cons part parts ih =>
      have hrest := ih (labels ++ [part.label])
      simp only [expandedText, spell] at hrest
      simp [assign, payloads, expandedText, spell, hrest]

theorem assign_parts (pendingPastes : List (Str × Str)) (labels : List Str) (parts : List Part) :
    (assign pendingPastes labels parts).map Prod.fst = parts := by
  induction parts generalizing labels with
  | nil => rfl
  | cons part parts ih => rw [assign, List.map_cons, ih]

theorem expandPendingPastes_eq (htext : text = spell parts ++ tail)
    (hparts : sortByStart elements = elementsOf [] parts) : expandPendingPastes text elements pendingPastes =
    some (expandedText (assign pendingPastes [] parts) ++ tail,
      if pendingPastes = [] then elements else keptElements [] (assign pendingPastes [] parts)) := by
  rw [expandPendingPastes]
  by_cases hpastes : pendingPastes = []
  · rw [if_pos (.inl hpastes), if_pos hpastes, hpastes, expandedText_nil, htext]
  · rw [if_neg hpastes]
    by_cases hnil : elements = []
    · rw [if_pos (.inr hnil)]
      have hnone : parts = [] := by
        rw [hnil] at hparts
        cases parts with
        | nil => rfl
        | cons part parts => cases hparts
      rw [htext, hnone, hnil]
      rfl
    · rw [if_neg (not_or.mpr ⟨hpastes, hnil⟩), hparts]
      obtain ⟨pendingByPlaceholder, hloop⟩ := @rebuild_elementsOf text [] tail parts pendingPastes []
        ⟨indexPastes pendingPastes, [], [], 0⟩ htext rfl (fun placeholder => indexPastes_eq pendingPastes placeholder)
      have hrest := slice_gap (spell parts) tail []
      rw [List.append_nil, ← htext] at hrest
      rw [hloop, Option.bind_some, List.nil_append]
      simp only [hrest, Option.map_some, List.nil_append]

/-! ## Trimmed elements -/

/-- What the trim leaves: each element that reaches into the trimmed text keeps the part of it that lies there. -/
structure TrimLeaves (original trimmed : Str) (within : Span) (elements result : List TextElement) : Prop where
  parts : ∃ lead trail, original = lead ++ trimmed ++ trail ∧ (∀ c ∈ lead ++ trail, isWhitespace c = true) ∧
    within = ⟨byteLen lead, byteLen (lead ++ trimmed)⟩
  filtered : result = elements.filterMap (leftOf original within)
  dropped : ∀ elem ∈ elements, leftOf original within elem = none ↔ elem.byteRange.Disjoint within
  spelled : ∀ elem ∈ result, elem.byteRange.stop ≤ byteLen trimmed ∧
    ∃ part, elem.storedPlaceholder = some part ∧ slice trimmed elem.byteRange.start elem.byteRange.stop = some part

theorem leftOf_eq_none {original : Str} {within : Span} {elem : TextElement}
    (hne : elem.byteRange.start < elem.byteRange.stop) (hwithin : within.start ≤ within.stop) :
    leftOf original within elem = none ↔ elem.byteRange.Disjoint within := by
  have hcut : leftOf original within elem = none ↔
      min elem.byteRange.stop within.stop ≤ max elem.byteRange.start within.start := by
    simp only [leftOf]
    split
    · next hle => exact iff_of_true rfl hle
    · next hlt => exact iff_of_false nofun hlt
  rw [hcut]
  constructor
  · rintro hle p ⟨⟨hstart, hstop⟩, hstart', hstop'⟩
    omega
  · intro hdisjoint
    by_contra hlt
    exact hdisjoint (max elem.byteRange.start within.start) (by omega)

/-- A cut within the trimmed text is found there again. -/
theorem slice_within {lead trimmed : Str} (trail : Str) {start stop : Nat} (hstart : byteLen lead ≤ start) (hle : start ≤ stop)
    (hstop : stop ≤ byteLen (lead ++ trimmed)) : slice trimmed (start - byteLen lead) (stop - byteLen lead) =
      slice (lead ++ trimmed ++ trail) start stop := by
  rw [slice_append_left hstop, ← @slice_append_right lead trimmed]
  congr 1 <;> omega

theorem trimTextElements_leaves {original : Str} (hne : ∀ elem ∈ elements, elem.byteRange.start < elem.byteRange.stop)
    (hstarts : ∀ elem ∈ elements, Boundary original elem.byteRange.start)
    (hstops : ∀ elem ∈ elements, Boundary original elem.byteRange.stop) :
    ∃ within, TrimLeaves original (trim original) within elements
      (trimTextElements original (trim original) elements) := by
  obtain ⟨trail, htrail, hblank⟩ := exists_trimEnd (trimStart original)
  have hlead : original = original.takeWhile isWhitespace ++ trimStart original :=
    (List.takeWhile_append_dropWhile).symm
  have hws : ∀ c ∈ original.takeWhile isWhitespace, isWhitespace c = true := fun c hc => List.mem_takeWhile_imp hc
  generalize original.takeWhile isWhitespace = lead at hlead hws
  have hlen : byteLen original - byteLen (trimStart original) = byteLen lead := by
    nth_rewrite 1 [hlead]
    rw [byteLen_append]
    omega
  have hparts : original = lead ++ trim original ++ trail := by
    nth_rewrite 1 [hlead]
    rw [htrail, List.append_assoc]
    rfl
  have hends : byteLen (lead ++ trim original) = byteLen lead + byteLen (trim original) := byteLen_append _ _
  -- the code counts from the start of the trimmed text, the spec from that of the original
  have hresult : trimTextElements original (trim original) elements =
      elements.filterMap (leftOf original ⟨byteLen lead, byteLen (lead ++ trim original)⟩) := by
    rw [trimTextElements]
    split
    · next hnone =>
        rcases hnone with hnone | hnone
        · refine (List.filterMap_eq_nil_iff.mpr fun elem helem => ?_).symm
          rw [hnone, List.append_nil, leftOf_eq_none (hne elem helem) (Nat.le_refl _)]
          rintro p ⟨-, hstart, hstop⟩
          exact absurd hstop (Nat.not_lt.mpr hstart)
        · rw [hnone]
          rfl
    · refine List.filterMap_congr fun elem helem => ?_
      have hlt := hne elem helem
      simp only [hlen, leftOf, hends]
      by_cases hout : elem.byteRange.stop ≤ byteLen lead ∨ byteLen lead + byteLen (trim original) ≤ elem.byteRange.start
      · rw [if_pos hout, if_pos (by omega)]
      · rw [if_neg hout]
        have hstart : elem.byteRange.start - byteLen lead = max elem.byteRange.start (byteLen lead) - byteLen lead := by
          omega
        have hstop : min (elem.byteRange.stop - byteLen lead) (byteLen (trim original)) =
            min elem.byteRange.stop (byteLen lead + byteLen (trim original)) - byteLen lead := by
          omega
        rw [hstart, hstop]
        by_cases hempty : min elem.byteRange.stop (byteLen lead + byteLen (trim original)) ≤
            max elem.byteRange.start (byteLen lead)
        · rw [if_pos (by omega), if_pos hempty]
        · rw [if_neg (by omega), if_neg hempty]
          have hsame := @slice_within lead (trim original) trail (max elem.byteRange.start (byteLen lead))
            (min elem.byteRange.stop (byteLen lead + byteLen (trim original))) (Nat.le_max_right _ _) (by omega)
            (by omega)
          rw [hsame, ← hparts]
  refine ⟨⟨byteLen lead, byteLen (lead ++ trim original)⟩, ⟨lead, trail, hparts, ?_, rfl⟩, hresult, ?_, ?_⟩
  · intro c hc
    exact (List.mem_append.mp hc).elim (hws c) (hblank c)
  · exact fun elem helem => leftOf_eq_none (hne elem helem) (byteLen_le_of_starts (List.prefix_append _ _))
  · intro left hleft
    rw [hresult] at hleft
    obtain ⟨elem, helem, hfound⟩ := List.mem_filterMap.mp hleft
    simp only [leftOf] at hfound
    split at hfound
    · cases hfound
    · next hlt =>
        cases hfound
        refine ⟨by simp only; omega, ?_⟩
        have hstart : Boundary original (max elem.byteRange.start (byteLen lead)) := by
          rcases Nat.le_total elem.byteRange.start (byteLen lead) with hle | hle
          · rw [Nat.max_eq_right hle, hparts, List.append_assoc]
            exact boundary_append _ _
          · rw [Nat.max_eq_left hle]
            exact hstarts elem helem
        have hstop : Boundary original (min elem.byteRange.stop (byteLen (lead ++ trim original))) := by
          rcases Nat.le_total elem.byteRange.stop (byteLen (lead ++ trim original)) with hle | hle
          · rw [Nat.min_eq_left hle]
            exact hstops elem helem
          · rw [Nat.min_eq_right hle]
            nth_rewrite 1 [hparts]
            exact boundary_append _ _
        obtain ⟨front, part, after, htext, hfront, hcut⟩ := exists_cut hstart hstop (by omega)
        have hslice := slice_eq_some.mpr ⟨front, after, htext, hfront, hcut⟩
        refine ⟨part, hslice, ?_⟩
        rw [slice_within trail (Nat.le_max_right _ _) (by omega) (Nat.min_le_right _ _), ← hparts]
        exact hslice

/-! ## What is submitted -/

theorem sortByStart_keptElements (hown : ∀ found ∈ cut, found.1.own ≠ []) :
    sortByStart (keptElements before cut) = keptElements before cut := by
  refine ((List.pairwise_map.mp (keptElements_apart hown)).imp_of_mem fun {elem} {other} helem _ hle => ?_).insertionSort_eq
  exact (Nat.le_of_lt (keptElements_ends _ [] hown elem helem).1).trans hle

theorem own_of_mem_assign (hown : ∀ part ∈ parts, part.own ≠ []) :
    ∀ found ∈ assign pendingPastes labels parts, found.1.own ≠ [] := by
  intro found hfound
  have hpart := List.mem_map_of_mem (f := Prod.fst) hfound
  rw [assign_parts] at hpart
  exact hown found.1 hpart

/-- The `k`-th element of a placeholder becomes the `k`-th payload, the other elements spell what they did, and the trim
leaves of them what lies in the trimmed text. Where there are no pastes the elements are not sorted. -/
theorem submitted_spec (h : Placed text elements) (pendingPastes : List (Str × Str)) :
    ∃ parts tail expanded returned, text = spell parts ++ tail ∧ sortByStart elements = elementsOf [] parts ∧
      expandPendingPastes text elements pendingPastes = some (expanded, returned) ∧
      expanded = expandedText (assign pendingPastes [] parts) ++ tail ∧
      returned = (if pendingPastes = [] then elements else keptElements [] (assign pendingPastes [] parts)) ∧
      (sortByStart returned).map (fun elem => slice expanded elem.byteRange.start elem.byteRange.stop) =
        ((assign pendingPastes [] parts).filter fun found => found.2 = none).map (fun found => some found.1.own) ∧
      (∃ within, TrimLeaves expanded (trim expanded) within returned
        (trimTextElements expanded (trim expanded) returned)) ∧
      prepareText text elements pendingPastes =
        some (trim expanded, trimTextElements expanded (trim expanded) returned) := by
  obtain ⟨parts, tail, htext, hparts, hown⟩ := h.exists_parts
  have hexpand := @expandPendingPastes_eq text tail elements parts pendingPastes htext hparts
  have hspell := keptElements_spell [] tail (assign pendingPastes [] parts)
  rw [List.nil_append] at hspell
  have hcut := @own_of_mem_assign parts pendingPastes [] hown
  have hprepare : ∀ expanded returned, expandPendingPastes text elements pendingPastes = some (expanded, returned) →
      prepareText text elements pendingPastes =
        some (trim expanded, trimTextElements expanded (trim expanded) returned) := by
    intro expanded returned heq
    rw [prepareText]
    split
    · next hnone =>
        rw [expandPendingPastes, if_pos (.inl hnone)] at heq
        rw [heq]
        rfl
    · rw [heq]
      rfl
  refine ⟨parts, tail, _, _, htext, hparts, hexpand, rfl, rfl, ?_, ?_, hprepare _ _ hexpand⟩
  · split
    · next hnone =>
        subst hnone
        have hranges := keptElements_ranges [] [] parts
        have hslices := congrArg (List.map fun range : Span =>
          slice (expandedText (assign [] [] parts) ++ tail) range.start range.stop) hranges
        rw [List.map_map, List.map_map] at hslices
        rw [hparts]
        exact hslices.symm.trans hspell
    · rw [sortByStart_keptElements hcut, hspell]
  · split
    · next hnone =>
        subst hnone
        rw [expandedText_nil, ← htext]
        exact trimTextElements_leaves h.nonempty h.starts h.stops
    · have hends := keptElements_ends [] tail hcut
      rw [List.nil_append] at hends
      exact trimTextElements_leaves (fun elem helem => (hends elem helem).1) (fun elem helem => (hends elem helem).2.2.1)
        (fun elem helem => (hends elem helem).2.2.2)

/-- Two placeholders of one letter, the second one first. -/
def twoElements : List TextElement := [⟨⟨2, 3⟩, none⟩, ⟨⟨1, 2⟩, some ['p']⟩]

theorem placed_twoElements : Placed [' ', 'p', 'q'] twoElements where
  disjoint := by
    refine List.pairwise_pair.mpr ?_
    rintro p ⟨⟨hstart, hstop⟩, hstart', hstop'⟩
    simp only at hstart hstop hstart' hstop'
    omega
  nonempty := by decide
  starts := by decide
  stops := by decide

theorem twoElements_submitted : ∃ parts tail, [' ', 'p', 'q'] = spell parts ++ tail ∧
    sortByStart twoElements = elementsOf [] parts ∧
    expandPendingPastes [' ', 'p', 'q'] twoElements [(['p'], ['x', ' '])] =
      some (expandedText (assign [(['p'], ['x', ' '])] [] parts) ++ tail,
        keptElements [] (assign [(['p'], ['x', ' '])] [] parts)) := by
  obtain ⟨parts, tail, expanded, returned, htext, hparts, hexpand, rfl, rfl, -⟩ :=
    submitted_spec placed_twoElements [(['p'], ['x', ' '])]
  exact ⟨parts, tail, htext, hparts, hexpand⟩

/-- Only where there is a paste are the elements put in order. -/
theorem twoElements_unsorted : Placed [' ', 'p', 'q'] twoElements ∧
    expandPendingPastes [' ', 'p', 'q'] twoElements [] = some ([' ', 'p', 'q'], twoElements) ∧
    ¬ Span.Apart (twoElements.map TextElement.byteRange) ∧
    expandPendingPastes [' ', 'p', 'q'] twoElements [(['z'], [])] =
      some ([' ', 'p', 'q'], [⟨⟨1, 2⟩, some ['p']⟩, ⟨⟨2, 3⟩, some ['q']⟩]) := by
  refine ⟨placed_twoElements, rfl, ?_, by decide⟩
  rw [Span.Apart]
  decide

end Codrex.Composer.Submission
