import Codrex.GitApply.Parser

/-!
# Output read path by path

The last path of a set is the one that a line has put there only in some orders of the names. Where it is not, the line
takes another path out of the other sets.
-/

namespace Codrex.GitApply

open Text

variable {captures : Captures} {parse parse' : Parse} {group other : Group} {path : Str} {raw : Str}
  {names : List (Kind × Str)} {kind : Kind}

/-! ## Named lines -/

def Kind.target : Kind → Option Group
  | .checking => none
  | .applied => some .applied
  | .conflicted => some .conflicted
  | .hint => some .skipped
  | .skipped => some .skipped

/-- The path leaves the other sets. -/
def Kind.moves : Kind → Bool
  | .applied | .conflicted | .skipped => true
  | .checking | .hint => false

/-- The kind of a line, and the path that it names. -/
def nameOf (captures : Captures) (line : Str) : Option (Kind × Str) :=
  match statusOf captures line with
  | some (.about kind (some raw)) => (pathOf raw).map (kind, ·)
  | _ => none

def namesOf (captures : Captures) (lines : List Str) : List (Kind × Str) := lines.filterMap (nameOf captures)

def linesOf (captures : Captures) (path : Str) (lines : List Str) : List Str :=
  lines.filter fun line => (nameOf captures line).map Prod.snd = some path

/-- The path is in the set, as far as the lines that name it say. -/
def listed (names : List (Kind × Str)) (group : Group) (path : Str) : Bool :=
  names.foldl (fun found name =>
    if name.2 ≠ path then found else if name.1.target = some group then true else found && !name.1.moves) false

/-- Behind these lines a line does what it says: its path is the last one of its set, or neither the one nor the other
is in a second set. -/
def Unconfused (names : List (Kind × Str)) (name : Kind × Str) : Prop :=
  name.1.moves → ∀ group, name.1.target = some group → ∀ last, name.2 < last → listed names group last →
    (∀ path, listed names group path → path ≤ last) →
      ∀ other, other ≠ group → listed names other name.2 = false ∧ listed names other last = false

def AllUnconfused (names : List (Kind × Str)) : Prop :=
  ∀ front name back, names = front ++ name :: back → Unconfused front name

/-- The sets hold what the lines say path by path. -/
def PathByPath (parse : Parse) (names : List (Kind × Str)) : Prop :=
  ∀ group path, path ∈ parse.get group ↔ listed names group path

/-! ## One line -/

@[simp] theorem Parse.get_mapSets (parse : Parse) (f : Group → Finset Str → Finset Str) (group : Group) :
    (parse.mapSets f).get group = f group (parse.get group) := by
  cases group <;> rfl

theorem add_of_pathOf (h : pathOf raw = some path) (set : Finset Str) : add set raw = insert path set := by
  rw [add, h]

theorem mem_addTo (h : pathOf raw = some path) (q : Str) :
    q ∈ (parse.addTo group raw).get other ↔ (other = group ∧ q = path) ∨ q ∈ parse.get other := by
  rw [Parse.addTo, Parse.get_mapSets, add_of_pathOf h]
  split
  · next heq => simp [heq]
  · next hne => simp [hne]

theorem nextBack_eq_some {set : Finset Str} {last : Str} :
    Parse.nextBack set = some last ↔ last ∈ set ∧ ∀ q ∈ set, q ≤ last := by
  constructor
  · intro h
    exact ⟨Finset.mem_of_max h, fun q hq => Finset.le_max_of_eq hq h⟩
  · rintro ⟨hmem, hle⟩
    obtain ⟨top, htop⟩ := Finset.max_of_mem hmem
    have hlast : top = last := le_antisymm (hle top (Finset.mem_of_max htop)) (Finset.le_max_of_eq hmem htop)
    rw [Parse.nextBack, htop, hlast]
    rfl

/-- The last path of the set is taken out of the other ones. -/
theorem moveTo_spec (h : pathOf raw = some path) : ∃ last, path ≤ last ∧
    (last = path ∨ last ∈ parse.get group) ∧ (∀ q ∈ parse.get group, q ≤ last) ∧
    ∀ other q, q ∈ (parse.moveTo group raw).get other ↔
      if other = group then q = path ∨ q ∈ parse.get group else q ∈ parse.get other ∧ q ≠ last := by
  have hset : ∀ q, q ∈ (parse.addTo group raw).get group ↔ q = path ∨ q ∈ parse.get group := by
    intro q
    rw [mem_addTo h]
    simp
  obtain ⟨last, hlast⟩ := Finset.max_of_mem ((hset path).mpr (.inl rfl))
  have hback : Parse.nextBack ((parse.addTo group raw).get group) = some last := hlast
  obtain ⟨hmem, hle⟩ := nextBack_eq_some.mp hback
  refine ⟨last, hle path ((hset path).mpr (.inl rfl)), (hset last).mp hmem, ?_, ?_⟩
  · exact fun q hq => hle q ((hset q).mpr (.inr hq))
  · intro other q
    have hget : (parse.moveTo group raw).get other =
        ((parse.addTo group raw).removeFromOthers group last).get other := by
      simp only [Parse.moveTo, hback]
      cases other <;> rfl
    rw [hget, Parse.removeFromOthers, Parse.get_mapSets]
    split
    · next heq => rw [heq, hset]
    · next hne =>
        rw [Finset.mem_erase, mem_addTo h, and_comm]
        simp [hne]

theorem listed_concat (names : List (Kind × Str)) (name : Kind × Str) (group : Group) (path : Str) :
    listed (names ++ [name]) group path =
      if name.2 ≠ path then listed names group path
      else if name.1.target = some group then true else listed names group path && !name.1.moves := by
  rw [listed, List.foldl_append]
  rfl

theorem moveTo_pathByPath (h : PathByPath parse names) (hpath : pathOf raw = some path)
    (hgroup : kind.target = some group) (hmoves : kind.moves = true) :
    PathByPath (parse.moveTo group raw) (names ++ [(kind, path)]) ↔ Unconfused names (kind, path) := by
  obtain ⟨last, hle, hlast, htop, hmem⟩ := @moveTo_spec parse group path raw hpath
  have hafter : ∀ other q, listed (names ++ [(kind, path)]) other q =
      if path ≠ q then listed names other q else if group = other then true else false := by
    intro other q
    rw [listed_concat, hgroup, hmoves]
    simp
  constructor
  · intro hnext _ group' hgroup' q hlt hq hqtop other hne
    obtain rfl : group = group' := Option.some.inj (hgroup.symm.trans hgroup')
    -- the last path of the set is not the one that the line names
    obtain rfl : q = last := by
      refine le_antisymm (htop q ((h group q).mpr hq)) ?_
      rcases hlast with rfl | hlast
      · exact hlt.le
      · exact hqtop last ((h group last).mp hlast)
    have hpathAfter := hnext other path
    have hlastAfter := hnext other q
    rw [hmem, if_neg hne, hafter, if_neg (by simp), if_neg hne.symm, h other path] at hpathAfter
    rw [hmem, if_neg hne, hafter, if_pos hlt.ne, h other q] at hlastAfter
    refine ⟨?_, ?_⟩
    · have hnot : ¬ listed names other path = true := fun hlisted => by
        have := hpathAfter.mp ⟨hlisted, hlt.ne⟩
        exact absurd this (by simp)
      simpa using hnot
    · have hnot : ¬ listed names other q = true := fun hlisted => (hlastAfter.mpr hlisted).2 rfl
      simpa using hnot
  · intro hclear other q
    rw [hmem, hafter]
    by_cases hgroups : other = group
    · subst hgroups
      rw [if_pos rfl, h other q]
      by_cases hq : path = q
      · simp [hq]
      · simp [hq, Ne.symm hq]
    · rw [if_neg hgroups, if_neg (Ne.symm hgroups), h other q]
      by_cases heq : last = path
      · subst heq
        by_cases hq : last = q
        · simp [hq]
        · simp [hq, Ne.symm hq]
      · have hmem := hlast.resolve_left heq
        obtain ⟨hpathNot, hlastNot⟩ := hclear hmoves group hgroup last (lt_of_le_of_ne hle (Ne.symm heq))
          ((h group last).mp hmem) (fun r hr => htop r ((h group r).mpr hr)) other hgroups
        by_cases hq : path = q
        · subst hq
          simp [hpathNot]
        · by_cases hql : q = last
          · subst hql
            simp [hlastNot]
          · simp [hq, hql]

theorem PathByPath.concat (h : PathByPath parse names) (hmoves : kind.moves = false)
    (hget : ∀ other q, q ∈ parse'.get other ↔ (kind.target = some other ∧ q = path) ∨ q ∈ parse.get other) :
    PathByPath parse' (names ++ [(kind, path)]) := by
  intro other q
  rw [hget, listed_concat, h other q]
  by_cases hq : path = q
  · subst hq
    by_cases htarget : kind.target = some other <;> simp [htarget, hmoves]
  · simp [hq, Ne.symm hq]

theorem step_pathByPath (h : PathByPath parse names) (hpath : pathOf raw = some path) :
    PathByPath (parse.step (.about kind (some raw))) (names ++ [(kind, path)]) ↔ Unconfused names (kind, path) := by
  cases kind with
  | checking =>
      refine iff_of_true (h.concat rfl ?_) nofun
      intro other q
      simp [Kind.target, Parse.step, Parse.get]
  | applied => exact moveTo_pathByPath h hpath rfl rfl
  | conflicted => exact moveTo_pathByPath h hpath rfl rfl
  | hint =>
      refine iff_of_true (h.concat rfl ?_) nofun
      intro other q
      have hadd := @mem_addTo parse .skipped other path raw hpath q
      have hget : (parse.step (.about .hint (some raw))).get other = (parse.addTo .skipped raw).get other := by
        cases other <;> rfl
      rw [hget, hadd]
      simp [Kind.target, eq_comm]
  | skipped => exact moveTo_pathByPath h hpath rfl rfl

/-! ## All lines -/

theorem statusOf_of_nameOf {line : Str} (h : nameOf captures line = some (kind, path)) :
    ∃ raw, statusOf captures line = some (.about kind (some raw)) ∧ pathOf raw = some path := by
  rw [nameOf] at h
  split at h
  · next kind' raw hstatus =>
      obtain ⟨found, hfound, heq⟩ := Option.map_eq_some_iff.mp h
      cases heq
      exact ⟨raw, hstatus, hfound⟩
  · cases h

theorem parseLines_concat (lines : List Str) {line : Str} {status : Status} (h : statusOf captures line = some status) :
    parseLines captures (lines ++ [line]) = (parseLines captures lines).step status := by
  rw [parseLines, List.foldl_append]
  simp only [List.foldl_cons, List.foldl_nil, h]
  rfl

theorem allUnconfused_concat (names : List (Kind × Str)) (name : Kind × Str) :
    AllUnconfused (names ++ [name]) ↔ AllUnconfused names ∧ Unconfused names name := by
  constructor
  · intro h
    refine ⟨fun front last back heq => h front last (back ++ [name]) ?_, h names name [] rfl⟩
    rw [heq, List.append_assoc, List.cons_append]
  · rintro ⟨hall, hlast⟩ front last back heq
    rcases List.eq_nil_or_concat back with rfl | ⟨back, final, rfl⟩
    · obtain ⟨rfl, hname⟩ := List.append_inj' heq rfl
      cases hname
      exact hlast
    · refine hall front last back ?_
      rw [List.concat_eq_append, ← List.cons_append, ← List.append_assoc] at heq
      exact (List.append_inj' heq rfl).1

/-- Every line names a path. -/
def AllNamed (captures : Captures) (lines : List Str) : Prop := ∀ line ∈ lines, (nameOf captures line).isSome

theorem namesOf_concat (lines : List Str) {line : Str} {name : Kind × Str} (h : nameOf captures line = some name) :
    namesOf captures (lines ++ [line]) = namesOf captures lines ++ [name] := by
  simp [namesOf, h]

theorem parseLines_pathByPath {lines : List Str} (hnamed : AllNamed captures lines)
    (h : AllUnconfused (namesOf captures lines)) : PathByPath (parseLines captures lines) (namesOf captures lines) := by
  induction lines using List.reverseRecOn with
  | nil =>
      intro group path
      cases group <;> simp [parseLines, Parse.new, Parse.get, namesOf, listed]
  | append_singleton front line ih =>
      obtain ⟨⟨kind, path⟩, hname⟩ := Option.isSome_iff_exists.mp (hnamed line (by simp))
      obtain ⟨raw, hstatus, hpath⟩ := statusOf_of_nameOf hname
      rw [namesOf_concat front hname, allUnconfused_concat] at h
      rw [namesOf_concat front hname, parseLines_concat front hstatus]
      exact (step_pathByPath (ih (fun line hline => hnamed line (by simp [hline])) h.1) hpath).mpr h.2

/-- The sets are path by path behind every line just where no line is confused. -/
theorem pathByPath_iff {lines : List Str} (hnamed : AllNamed captures lines) :
    (∀ front, front <+: lines → PathByPath (parseLines captures front) (namesOf captures front)) ↔
      AllUnconfused (namesOf captures lines) := by
  induction lines using List.reverseRecOn with
  | nil =>
      refine iff_of_true ?_ (by simp [AllUnconfused, namesOf])
      intro front hfront
      rw [List.prefix_nil.mp hfront]
      exact parseLines_pathByPath nofun (by simp [AllUnconfused, namesOf])
  | append_singleton front line ih =>
      have hfrontNamed : AllNamed captures front := fun line hline => hnamed line (by simp [hline])
      obtain ⟨⟨kind, path⟩, hname⟩ := Option.isSome_iff_exists.mp (hnamed line (by simp))
      obtain ⟨raw, hstatus, hpath⟩ := statusOf_of_nameOf hname
      rw [namesOf_concat front hname, allUnconfused_concat, ← ih hfrontNamed]
      constructor
      · intro h
        have hfront : ∀ before, before <+: front → PathByPath (parseLines captures before) (namesOf captures before) :=
          fun before hbefore => h before (hbefore.trans (List.prefix_append front [line]))
        refine ⟨hfront, ?_⟩
        have hall := h (front ++ [line]) (List.prefix_refl _)
        rw [namesOf_concat front hname, parseLines_concat front hstatus] at hall
        exact (step_pathByPath (hfront front (List.prefix_refl _)) hpath).mp hall
      · rintro ⟨hfront, hclear⟩ before hbefore
        rcases List.prefix_concat_iff.mp hbefore with rfl | hbefore
        · rw [namesOf_concat front hname, parseLines_concat front hstatus]
          exact (step_pathByPath (hfront front (List.prefix_refl _)) hpath).mpr hclear
        · exact hfront before hbefore

/-! ## The lines of one path -/

theorem namesOf_linesOf (captures : Captures) (path : Str) (lines : List Str) :
    namesOf captures (linesOf captures path lines) = (namesOf captures lines).filter fun name => name.2 = path := by
  induction lines with
  | nil => rfl
  | cons line rest ih =>
      simp only [namesOf, linesOf] at ih ⊢
      cases hname : nameOf captures line with
      | none => simpa [hname] using ih
      | some name => by_cases hpath : name.2 = path <;> simpa [hname, hpath] using ih

theorem listed_filter (names : List (Kind × Str)) (group : Group) (path : Str) :
    listed (names.filter fun name => name.2 = path) group path = listed names group path := by
  induction names using List.reverseRecOn with
  | nil => rfl
  | append_singleton front name ih =>
      rw [List.filter_append, listed_concat]
      by_cases hpath : name.2 = path
      · simp [hpath, listed_concat, ih]
      · simp [hpath, ih]

theorem mem_of_listed (h : listed names group path = true) : ∃ name ∈ names, name.2 = path := by
  induction names using List.reverseRecOn with
  | nil => cases h
  | append_singleton front name ih =>
      by_cases hpath : name.2 = path
      · exact ⟨name, by simp, hpath⟩
      · rw [listed_concat, if_pos hpath] at h
        obtain ⟨found, hmem, hfound⟩ := ih h
        exact ⟨found, by simp [hmem], hfound⟩

/-- The lines of one path confuse nothing. -/
theorem allUnconfused_linesOf (captures : Captures) (path : Str) (lines : List Str) :
    AllUnconfused (namesOf captures (linesOf captures path lines)) := by
  rw [namesOf_linesOf]
  intro front name back heq _ group _ last hlt hlast
  have hsame : ∀ other ∈ front ++ name :: back, other.2 = path := by
    intro other hother
    rw [← heq] at hother
    simpa using (List.mem_filter.mp hother).2
  obtain ⟨found, hmem, rfl⟩ := mem_of_listed hlast
  rw [hsame found (by simp [hmem]), hsame name (by simp)] at hlt
  exact absurd hlt (lt_irrefl path)

theorem mem_alone {lines : List Str} (hnamed : AllNamed captures lines) (group : Group) (path : Str) :
    path ∈ (parseLines captures (linesOf captures path lines)).get group ↔
      listed (namesOf captures lines) group path = true := by
  have halone : AllNamed captures (linesOf captures path lines) :=
    fun line hline => hnamed line (List.mem_filter.mp hline).1
  rw [parseLines_pathByPath halone (allUnconfused_linesOf captures path lines) group path, namesOf_linesOf,
    listed_filter]

/-! ## The output -/

/-- The paths of an output, by set. -/
def Lists (output : List Str × List Str × List Str) : Group → List Str
  | .applied => output.1
  | .skipped => output.2.1
  | .conflicted => output.2.2

theorem mem_outputOf (captures : Captures) (lines : List Str) (group : Group) (path : Str) :
    path ∈ Lists (outputOf captures lines) group ↔ path ∈ (parseLines captures lines).get group ∧
      (group ≠ .conflicted → path ∉ (parseLines captures lines).conflicted) ∧
      (group = .skipped → path ∉ (parseLines captures lines).applied) := by
  cases group with
  | applied => simp [Lists, outputOf, Parse.finalPrecedence, Parse.get]
  | skipped =>
      simp only [Lists, outputOf, Parse.finalPrecedence, Parse.get, Finset.mem_sort, Finset.mem_sdiff]
      tauto
  | conflicted => simp [Lists, outputOf, Parse.finalPrecedence, Parse.get]

/-- The three sets share no path. Where no line is confused, each path is where its own lines put it; and the sets are so
behind every line just where none is. -/
theorem output_pathwise {lines : List Str} (hnamed : AllNamed captures lines) :
    (∀ path group other, path ∈ Lists (outputOf captures lines) group → path ∈ Lists (outputOf captures lines) other →
      group = other) ∧
    (AllUnconfused (namesOf captures lines) → ∀ path group, path ∈ Lists (outputOf captures lines) group ↔
      path ∈ Lists (outputOf captures (linesOf captures path lines)) group) ∧
    ((∀ front, front <+: lines → PathByPath (parseLines captures front) (namesOf captures front)) ↔
      AllUnconfused (namesOf captures lines)) := by
  refine ⟨?_, ?_, pathByPath_iff hnamed⟩
  · intro path group other hgroup hother
    rw [mem_outputOf] at hgroup hother
    cases group <;> cases other <;> simp_all [Parse.get]
  · intro hclear path group
    have hsame : ∀ group, path ∈ (parseLines captures lines).get group ↔
        path ∈ (parseLines captures (linesOf captures path lines)).get group := by
      intro group
      rw [mem_alone hnamed, parseLines_pathByPath hnamed hclear group path]
    rw [mem_outputOf, mem_outputOf, hsame group]
    have hconflicted := hsame .conflicted
    have happlied := hsame .applied
    simp only [Parse.get] at hconflicted happlied
    rw [hconflicted, happlied]

/-! ## Lines out of order -/

def between (front back : String) (line : Str) : Option (Option Str) :=
  ((stripPrefix front.toList line).bind (stripSuffix back.toList)).map some

/-- What two of the patterns find in such a line. -/
def plainCaptures : Captures := fun pattern line =>
  if pattern = appliedClean then between "Applied patch " " cleanly." line
  else if pattern = indexMismatch then between "error: " ": does not match index" line
  else none

def appliedLine (path : Str) : Str := "Applied patch ".toList ++ path ++ " cleanly.".toList

def mismatchLine (path : Str) : Str := "error: ".toList ++ path ++ ": does not match index".toList

def orderedLines : List Str := [appliedLine ['a'], mismatchLine ['z']]

theorem orderedLines_pathwise : AllNamed plainCaptures orderedLines ∧
    ∀ path group, path ∈ Lists (outputOf plainCaptures orderedLines) group ↔
      path ∈ Lists (outputOf plainCaptures (linesOf plainCaptures path orderedLines)) group := by
  have hnamed : AllNamed plainCaptures orderedLines := by
    rw [AllNamed]
    decide
  refine ⟨hnamed, (output_pathwise hnamed).2.1 ?_⟩
  have hnames : namesOf plainCaptures orderedLines = [] ++ [(.applied, ['a'])] ++ [(.skipped, ['z'])] := by
    decide
  rw [hnames, allUnconfused_concat, allUnconfused_concat]
  refine ⟨⟨by simp [AllUnconfused], by simp [Unconfused, listed]⟩, ?_⟩
  intro _ group hgroup last hlt hlast
  obtain rfl : Group.skipped = group := Option.some.inj hgroup
  obtain ⟨name, hmem, rfl⟩ := mem_of_listed hlast
  rw [List.nil_append, List.mem_singleton] at hmem
  subst hmem
  exact absurd hlt (by decide)

def confusedLines : List Str := [appliedLine ['a'], mismatchLine ['z'], mismatchLine ['a']]

/-- The line about `z` keeps `a` among the applied paths. -/
theorem confusedLines_not_pathwise : AllNamed plainCaptures confusedLines ∧
    ¬ ∀ path group, path ∈ Lists (outputOf plainCaptures confusedLines) group ↔
      path ∈ Lists (outputOf plainCaptures (linesOf plainCaptures path confusedLines)) group := by
  refine ⟨by rw [AllNamed]; decide, fun h => ?_⟩
  have happlied := h ['a'] .applied
  rw [mem_outputOf, mem_outputOf] at happlied
  revert happlied
  decide

end Codrex.GitApply
