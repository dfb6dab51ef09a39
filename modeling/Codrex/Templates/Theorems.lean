import Codrex.Lib.Entries
import Codrex.Templates.Template

/-!
# Templates are read back and filled

A source text that is written from segments is parsed into a template that renders as the segments do.
-/

namespace Codrex.Templates
open Text

/-! ## Joined segments -/

@[simp] theorem fill_append (value : Str → Str) (first second : List Segment) :
    fill value (first ++ second) = fill value first ++ fill value second := List.flatMap_append

@[simp] theorem namesOf_append (first second : List Segment) :
    namesOf (first ++ second) = namesOf first ++ namesOf second := List.filterMap_append

theorem pushLiteral_cases (segments : List Segment) (literal : Str) :
    (literal = [] ∧ pushLiteral segments literal = segments) ∨
      (∃ front existing, segments = front ++ [.literal existing] ∧
        pushLiteral segments literal = front ++ [.literal (existing ++ literal)]) ∨
      pushLiteral segments literal = segments ++ [.literal literal] := by
  by_cases hne : literal = []
  · exact .inl ⟨hne, by rw [hne]; rfl⟩
  · by_cases hlast : ∃ existing, segments.getLast? = some (.literal existing)
    · obtain ⟨existing, hlast⟩ := hlast
      obtain ⟨front, rfl⟩ := List.getLast?_eq_some_iff.mp hlast
      exact .inr (.inl ⟨front, existing, rfl, pushLiteral_concat front existing⟩)
    · exact .inr (.inr (pushLiteral_new hne (not_exists.mp hlast)))

theorem fill_pushLiteral (value : Str → Str) (segments : List Segment) (literal : Str) :
    fill value (pushLiteral segments literal) = fill value segments ++ literal := by
  rcases pushLiteral_cases segments literal with ⟨rfl, h⟩ | ⟨front, existing, rfl, h⟩ | h
  · rw [h, List.append_nil]
  · rw [h]
    simp [fill]
  · rw [h]
    simp [fill]

theorem namesOf_pushLiteral (segments : List Segment) (literal : Str) :
    namesOf (pushLiteral segments literal) = namesOf segments := by
  rcases pushLiteral_cases segments literal with ⟨-, h⟩ | ⟨front, existing, rfl, h⟩ | h
  · rw [h]
  · rw [h]
    simp [namesOf]
  · rw [h]
    simp [namesOf]

theorem fill_joinOnto (value : Str → Str) (joined segments : List Segment) :
    fill value (joinOnto joined segments) = fill value joined ++ fill value segments := by
  induction segments generalizing joined with
  | nil => simp [joinOnto, fill]
  | cons segment segments ih =>
      cases segment with
      | literal text =>
          rw [joinOnto, ih, fill_pushLiteral, List.append_assoc]
          rfl
      | placeholder name =>
          rw [joinOnto, ih, fill_append, List.append_assoc, ← fill_append]
          rfl

theorem namesOf_joinOnto (joined segments : List Segment) :
    namesOf (joinOnto joined segments) = namesOf joined ++ namesOf segments := by
  induction segments generalizing joined with
  | nil => simp [joinOnto, namesOf]
  | cons segment segments ih =>
      cases segment with
      | literal text =>
          rw [joinOnto, ih, namesOf_pushLiteral]
          rfl
      | placeholder name =>
          rw [joinOnto, ih, namesOf_append, List.append_assoc]
          rfl

/-! ## The values -/

/-- The names are new to the map and each stands once. -/
def AreNew (given : List (Str × Str)) (map : VariableMap) : Prop :=
  (given.map Prod.fst).Nodup ∧ ∀ name ∈ given.map Prod.fst, map.lookup name = none

variable {map : VariableMap}

theorem areNew_cons {name value : Str} {given : List (Str × Str)} :
    AreNew ((name, value) :: given) map ↔ map.lookup name = none ∧ AreNew given (map.insert name value) := by
  simp only [AreNew, List.map_cons, List.nodup_cons, List.forall_mem_cons]
  constructor
  · rintro ⟨⟨hnot, hnodup⟩, hname, hrest⟩
    refine ⟨hname, hnodup, fun other hother => ?_⟩
    have hne : other ≠ name := by
      rintro rfl
      exact hnot hother
    rw [AList.lookup_insert_ne hne]
    exact hrest other hother
  · rintro ⟨hname, hnodup, hrest⟩
    have hnot : name ∉ given.map Prod.fst := fun hmem => by simpa using hrest name hmem
    refine ⟨⟨hnot, hnodup⟩, hname, fun other hother => ?_⟩
    have hne : other ≠ name := by
      rintro rfl
      exact hnot hother
    rw [← hrest other hother, AList.lookup_insert_ne hne]

theorem foldlM_insertVariable_ok {given : List (Str × Str)} (h : AreNew given map) :
    ∃ built, given.foldlM insertVariable map = .ok built ∧
      ∀ name, built.lookup name = (given.lookup name).or (map.lookup name) := by
  induction given generalizing map with
  | nil => exact ⟨map, rfl, fun _ => rfl⟩
  | cons entry given ih =>
      obtain ⟨name, value⟩ := entry
      obtain ⟨hname, hrest⟩ := areNew_cons.mp h
      obtain ⟨built, hbuilt, hlookup⟩ := ih hrest
      refine ⟨built, ?_, fun other => ?_⟩
      · rw [List.foldlM_cons, insertVariable, if_neg (by simp [hname])]
        exact hbuilt
      · rw [hlookup, List.lookup_cons]
        by_cases heq : other = name
        · subst heq
          have hnone : given.lookup other = none := Entries.lookup_eq_none.mpr (List.nodup_cons.mp h.1).1
          simp [hnone]
        · have hother : (other == name) = false := by simpa using heq
          rw [AList.lookup_insert_ne heq, hother]

theorem foldlM_insertVariable_error {given : List (Str × Str)} (h : ¬ AreNew given map) :
    ∃ error, given.foldlM insertVariable map = .error error := by
  induction given generalizing map with
  | nil => exact absurd ⟨List.nodup_nil, by simp⟩ h
  | cons entry given ih =>
      obtain ⟨name, value⟩ := entry
      rw [List.foldlM_cons, insertVariable]
      split
      next => exact ⟨_, rfl⟩
      next hname =>
        have hnone : map.lookup name = none := by simpa using hname
        exact ih fun hrest => h (areNew_cons.mpr ⟨hnone, hrest⟩)

theorem areNew_empty (given : List (Str × Str)) : AreNew given ∅ ↔ (given.map Prod.fst).Nodup :=
  ⟨And.left, fun h => ⟨h, fun _ _ => rfl⟩⟩

theorem foldlM_renderSegment {segments : List Segment} {value : Str → Str}
    (h : ∀ name ∈ namesOf segments, map.lookup name = some (value name)) (rendered : Str) :
    segments.foldlM (renderSegment map) rendered = .ok (rendered ++ fill value segments) := by
  induction segments generalizing rendered with
  | nil => simp [fill]; rfl
  | cons segment segments ih =>
      cases segment with
      | literal text =>
          rw [List.foldlM_cons, renderSegment]
          refine (ih h _).trans ?_
          rw [List.append_assoc]
          rfl
      | placeholder name =>
          rw [List.foldlM_cons, renderSegment, h name List.mem_cons_self]
          refine (ih (fun other hother => h other (List.mem_cons_of_mem _ hother)) _).trans ?_
          rw [List.append_assoc]
          rfl

/-! ## Rendering -/

variable {template : Template} {given : List (Str × Str)}

/-- The map has a value for the names that are given. -/
theorem exists_variableMap (h : (given.map Prod.fst).Nodup) :
    ∃ map, buildVariableMap given = .ok map ∧ (∀ name, map.lookup name = given.lookup name) ∧
      ∀ name, name ∈ map.keys ↔ name ∈ given.map Prod.fst := by
  obtain ⟨map, hmap, hlookup⟩ := foldlM_insertVariable_ok ((areNew_empty given).mpr h)
  have hgiven : ∀ name, map.lookup name = given.lookup name := fun name => by
    rw [hlookup]
    exact Option.or_none
  refine ⟨map, hmap, hgiven, fun name => ?_⟩
  have hnone : given.lookup name = none ↔ name ∉ given.map Prod.fst := Entries.lookup_eq_none
  rw [← not_iff_not, ← hnone, ← hgiven, AList.lookup_eq_none, AList.mem_keys]

theorem render_of_map (h : buildVariableMap given = .ok map) :
    template.render given = match template.placeholderNames.find? fun name => (map.lookup name).isNone with
      | some name => .error (.missingValue name)
      | none =>
          match map.keys.toFinset.sort.find? fun name => name ∉ template.placeholders with
          | some name => .error (.extraValue name)
          | none => template.segments.foldlM (renderSegment map) [] := by
  rw [Template.render, h]
  rfl

theorem render_ok (hnodup : (given.map Prod.fst).Nodup)
    (hsame : ∀ name, name ∈ given.map Prod.fst ↔ name ∈ template.placeholders)
    (hnames : ∀ name ∈ namesOf template.segments, name ∈ template.placeholders) :
    template.render given = .ok (fill (fun name => (given.lookup name).getD []) template.segments) := by
  obtain ⟨map, hmap, hlookup, hkeys⟩ := exists_variableMap hnodup
  have hvalue : ∀ name ∈ template.placeholders, map.lookup name = some ((given.lookup name).getD []) := by
    intro name hname
    rw [hlookup]
    cases hfound : given.lookup name with
    | some value => rfl
    | none => exact absurd ((hsame name).mpr hname) (Entries.lookup_eq_none.mp hfound)
  have hmissing : template.placeholderNames.find? (fun name => (map.lookup name).isNone) = none := by
    rw [List.find?_eq_none]
    intro name hname
    rw [hvalue name ((Finset.mem_sort _).mp hname)]
    simp
  have hextra : map.keys.toFinset.sort.find? (fun name => name ∉ template.placeholders) = none := by
    rw [List.find?_eq_none]
    intro name hname
    rw [Finset.mem_sort, List.mem_toFinset, hkeys, hsame] at hname
    simpa using hname
  simp only [render_of_map hmap, hmissing, hextra]
  exact foldlM_renderSegment (fun name hname => hvalue name (hnames name hname)) []

theorem render_error (h : (∃ name ∈ template.placeholders, name ∉ given.map Prod.fst) ∨
      (∃ name ∈ given.map Prod.fst, name ∉ template.placeholders) ∨ ¬ (given.map Prod.fst).Nodup) :
    ∃ error, template.render given = .error error := by
  by_cases hnodup : (given.map Prod.fst).Nodup
  · obtain ⟨map, hmap, hlookup, hkeys⟩ := exists_variableMap hnodup
    rw [render_of_map hmap]
    split
    · exact ⟨_, rfl⟩
    next hmissing =>
      split
      · exact ⟨_, rfl⟩
      next hextra =>
        exfalso
        rw [List.find?_eq_none] at hmissing hextra
        rcases h with ⟨name, hname, hnot⟩ | ⟨name, hname, hnot⟩ | hdouble
        · apply hmissing name ((Finset.mem_sort _).mpr hname)
          rw [hlookup, Entries.lookup_eq_none.mpr hnot]
          rfl
        · apply hextra name ((Finset.mem_sort _).mpr (List.mem_toFinset.mpr ((hkeys name).mpr hname)))
          simpa using hnot
        · exact hdouble hnodup
  · obtain ⟨error, herror⟩ := foldlM_insertVariable_error (mt (areNew_empty given).mp hnodup)
    rw [Template.render, buildVariableMap, herror]
    exact ⟨error, rfl⟩

/-! ## The round trip -/

/-- What is written from segments is parsed, and rendered as the segments are filled, if no segment completes a delimiter
that the literal text before it begins. -/
theorem parse_sourceOf_rendersAs (segments : List Segment) (hnames : ∀ name ∈ namesOf segments, IsName name)
    (hsep : Separated [] segments) :
    ∃ template, Template.parse (sourceOf segments) = .ok template ∧ RendersAs segments template := by
  have hparse := parseLoop_sourceOf hsep hnames 0 ∅ []
  rw [Finset.empty_union, pushLiteral_nil] at hparse
  refine ⟨_, hparse, ?_⟩
  have hnamesOf : namesOf (joinOnto [] segments) = namesOf segments := namesOf_joinOnto [] segments
  have hfill : ∀ value, fill value (joinOnto [] segments) = fill value segments := fun value =>
    fill_joinOnto value [] segments
  constructor
  case sorted => exact (Finset.sortedLT_sort _).pairwise
  case names =>
    intro name
    rw [Template.placeholderNames, Finset.mem_sort, List.mem_toFinset]
  case renders =>
    intro given hnodup hsame
    rw [← hfill]
    refine render_ok hnodup (fun name => ?_) fun name hname => ?_
    · rw [hsame, List.mem_toFinset]
    · rw [List.mem_toFinset, ← hnamesOf]
      exact hname
  case fails =>
    intro given
    constructor
    · rintro ⟨error, herror⟩
      by_contra hnone
      simp only [not_or, not_exists, not_and, not_not] at hnone
      obtain ⟨hmissing, hextra, hnodup⟩ := hnone
      have hok : Template.render ⟨(namesOf segments).toFinset, joinOnto [] segments⟩ given = .ok _ :=
        render_ok hnodup (fun name => by rw [List.mem_toFinset]; exact ⟨hextra name, hmissing name⟩)
          (fun name hname => by rw [List.mem_toFinset, ← hnamesOf]; exact hname)
      rw [herror] at hok
      cases hok
    · intro h
      apply render_error
      simpa only [List.mem_toFinset] using h

def greeting : List Segment := [.literal "\x7d\x7d, \x7b\x7b", .placeholder "name", .literal "\x7d!"]

theorem greeting_rendersAs :
    ∃ template, Template.parse "\x7d\x7d\x7d\x7d, \x7b\x7b\x7b\x7b\x7b\x7b name \x7d\x7d\x7d!" = .ok template ∧
      RendersAs greeting template :=
  parse_sourceOf_rendersAs greeting (by
    intro name hname
    obtain rfl : name = "name".toList := by simpa [greeting, namesOf] using hname
    exact ⟨by decide, by decide, by decide, by decide⟩) (by simp [Separated, greeting]; decide)

/-- Two literals that each are a single brace are written as a delimiter. -/
theorem adjacentLiterals_not_parsed :
    ¬ ∀ segments : List Segment, (∀ name ∈ namesOf segments, IsName name) →
      (∀ text name, [.literal text, .placeholder name] <:+: segments → ¬ EndsUnpaired '{' text) →
      ∃ template, Template.parse (sourceOf segments) = .ok template ∧ RendersAs segments template := by
  intro h
  obtain ⟨template, hparse, -⟩ := h [.literal ['{'], .literal ['{']] (by simp [namesOf]) (by
    intro text name hinfix
    have hmem : Segment.placeholder name ∈ [Segment.literal ['{'], .literal ['{']] := hinfix.subset (by simp)
    simp at hmem)
  have herror : Template.parse (sourceOf [.literal ['{'], .literal ['{']]) = .error (.unterminatedPlaceholder 0) := by
    decide +kernel
  rw [herror] at hparse
  cases hparse

end Codrex.Templates
