import Codrex.ApplyPatch.Lemmas.Apply

/-!
# Previews

The changes of a preview are read from the files as they are before the patch. Hunk by hunk they are compared
with what the hunks do to the files one after the other.
-/

namespace Codrex.ApplyPatch

open Text AbsolutePathBuf

variable {changes : Changes} {path dest : AbsolutePathBuf}

section

variable {texts now : Texts}

/-! ## Changes put into the map -/

/-- The change leaves this under its path, and touches no other path. -/
def ApplyPatchFileChange.Leaves : ApplyPatchFileChange → Option Str → Prop
  | add content, left => left = some content
  | delete _, left => left = none
  | update _ none new, left => left = some new
  | update _ (some _) _, _ => False

def ApplyPatchFileChange.movePath : ApplyPatchFileChange → Option AbsolutePathBuf
  | update _ movePath _ => movePath
  | _ => none

def MovedTo (changes : Changes) (path : AbsolutePathBuf) : Prop :=
  ∃ source diff new, changes source = some (.update diff (some path) new)

def MovedAway (changes : Changes) (path : AbsolutePathBuf) : Prop :=
  ∃ diff dest new, changes path = some (.update diff (some dest) new)

theorem movedTo_of_movePath {source : AbsolutePathBuf} {change : ApplyPatchFileChange}
    (hsource : changes source = some change) (hmove : change.movePath = some path) : MovedTo changes path := by
  cases change with
  | add content => cases hmove
  | delete content => cases hmove
  | update diff movePath new =>
      cases hmove
      exact ⟨source, diff, new, hsource⟩

def ApplyPatchFileChange.Done (change : ApplyPatchFileChange) (path : AbsolutePathBuf) (now : Texts) : Prop :=
  match change with
  | add content => now path = some content
  | delete _ => now path = none
  | update _ none new => now path = some new
  | update _ (some dest) new => now dest = some new ∧ now path = none

namespace ApplyPatchFileChange

theorem Done.congr {change : ApplyPatchFileChange} {now' : Texts} (h : change.Done path now)
    (hpath : now' path = now path) (hmove : ∀ dest, change.movePath = some dest → now' dest = now dest) :
    change.Done path now' := by
  cases change with
  | add content => exact hpath.trans h
  | delete content => exact hpath.trans h
  | update diff movePath new =>
      cases movePath with
      | none => exact hpath.trans h
      | some dest => exact ⟨(hmove dest rfl).trans h.1, hpath.trans h.2⟩

theorem Leaves.done {change : ApplyPatchFileChange} {left : Option Str} (h : change.Leaves left)
    (hpath : now path = left) : change.Done path now := by
  cases change with
  | add content => exact hpath.trans h
  | delete content => exact hpath.trans h
  | update diff movePath new =>
      cases movePath with
      | none => exact hpath.trans h
      | some dest => cases h

end ApplyPatchFileChange

namespace ChangesApplied

theorem done (h : ChangesApplied texts changes now) {change : ApplyPatchFileChange}
    (hpath : changes path = some change) : change.Done path now := by
  cases change with
  | add content => exact h.add path content hpath
  | delete content => exact h.delete path content hpath
  | update diff movePath new =>
      cases movePath with
      | none => exact h.update path diff new hpath
      | some dest => exact h.move path diff dest new hpath

theorem kept (h : ChangesApplied texts changes now) (hpath : changes path = none) (hto : ¬ MovedTo changes path) :
    now path = texts path := by
  apply h.unchanged path hpath
  intro source diff new hsource
  exact hto ⟨source, diff, new, hsource⟩

theorem of_done (hdone : ∀ path change, changes path = some change → change.Done path now)
    (hkept : ∀ path, changes path = none → ¬ MovedTo changes path → now path = texts path) :
    ChangesApplied texts changes now := by
  constructor
  case add => exact fun path content hpath => hdone path _ hpath
  case delete => exact fun path content hpath => hdone path _ hpath
  case update => exact fun path diff new hpath => hdone path _ hpath
  case move => exact fun path diff dest new hpath => hdone path _ hpath
  case unchanged =>
    intro path hpath hnot
    apply hkept path hpath
    rintro ⟨source, diff, new, hsource⟩
    exact hnot source diff new hsource

theorem rewrite (h : ChangesApplied texts changes now) (hto : ¬ MovedTo changes path)
    (haway : ¬ MovedAway changes path) {change : ApplyPatchFileChange} {left : Option Str}
    (hleft : change.Leaves left) :
    ChangesApplied texts (Function.update changes path (some change)) (Function.update now path left) := by
  apply of_done
  · intro p other hp
    by_cases hpath : p = path
    · subst hpath
      rw [Function.update_self, Option.some.injEq] at hp
      subst hp
      exact hleft.done (Function.update_self _ _ _)
    · rw [Function.update_of_ne hpath] at hp
      apply (h.done hp).congr (Function.update_of_ne hpath _ _)
      intro dest hdest
      apply Function.update_of_ne
      rintro rfl
      exact hto (movedTo_of_movePath hp hdest)
  · intro p hp hnot
    have hpath : p ≠ path := by
      rintro rfl
      rw [Function.update_self] at hp
      cases hp
    rw [Function.update_of_ne hpath] at hp ⊢
    apply h.kept hp
    rintro ⟨source, diff, new, hsource⟩
    have hne : source ≠ path := by
      rintro rfl
      exact haway ⟨diff, p, new, hsource⟩
    apply hnot
    exact ⟨source, diff, new, (Function.update_of_ne hne _ _).trans hsource⟩

theorem moveTo (h : ChangesApplied texts changes now) (hne : dest ≠ path)
    (hpath : changes path = none) (hdest : changes dest = none) (htoPath : ¬ MovedTo changes path)
    (htoDest : ¬ MovedTo changes dest) (diff new : Str) :
    ChangesApplied texts (Function.update changes path (some (.update diff (some dest) new)))
      (Function.update (Function.update now dest (some new)) path none) := by
  have hother : ∀ {p}, p ≠ path → p ≠ dest →
      Function.update (Function.update now dest (some new)) path none p = now p := by
    intro p hp1 hp2
    rw [Function.update_of_ne hp1, Function.update_of_ne hp2]
  apply of_done
  · intro p other hp
    by_cases hp1 : p = path
    · subst hp1
      rw [Function.update_self, Option.some.injEq] at hp
      subst hp
      exact ⟨by rw [Function.update_of_ne hne, Function.update_self], Function.update_self _ _ _⟩
    · rw [Function.update_of_ne hp1] at hp
      have hp2 : p ≠ dest := by
        rintro rfl
        rw [hdest] at hp
        cases hp
      -- The changes made before are about other paths.
      apply (h.done hp).congr (hother hp1 hp2)
      intro dest' hdest'
      apply hother
      · rintro rfl
        exact htoPath (movedTo_of_movePath hp hdest')
      · rintro rfl
        exact htoDest (movedTo_of_movePath hp hdest')
  · intro p hp hnot
    have hp1 : p ≠ path := by
      rintro rfl
      rw [Function.update_self] at hp
      cases hp
    have hp2 : p ≠ dest := by
      rintro rfl
      exact hnot ⟨path, diff, new, Function.update_self _ _ _⟩
    rw [Function.update_of_ne hp1] at hp
    rw [hother hp1 hp2]
    apply h.kept hp
    rintro ⟨source, diff', new', hsource⟩
    have hsourceNe : source ≠ path := by
      rintro rfl
      rw [hpath] at hsource
      cases hsource
    apply hnot
    exact ⟨source, diff', new', (Function.update_of_ne hsourceNe _ _).trans hsource⟩

end ChangesApplied

end

variable {inv : InvocationEnv} {env : HostEnv} {cwd : AbsolutePathBuf} {files now : TextFiles}

/-! ## Files written and removed -/

theorem places_eq_dir : places now path = some .dir ↔ now.entry path = some .dir := by
  rw [places, Function.comp_apply]
  cases now.entry path with
  | none => simp
  | some entry => cases entry <;> simp [Place.ofEntry]

theorem places_ne_file : places now path ≠ some .file ↔ now.text path = none := by
  rw [places, TextFiles.text, Function.comp_apply, Function.comp_apply]
  cases now.entry path with
  | none => simp
  | some entry => cases entry <;> simp [Place.ofEntry, TextEntry.contents?]

theorem update_entry {now' : TextFiles} {contents : Str}
    (h : now'.entry = Function.update now.entry path (some (.text contents))) :
    now'.text = Function.update now.text path (some contents) ∧
      places now' = Function.update (places now) path (some .file) := by
  rw [TextFiles.text, TextFiles.text, places, places, h, Function.comp_update, Function.comp_update]
  exact ⟨rfl, rfl⟩

theorem clear_entry {now' : TextFiles} (h : now'.entry = Function.update now.entry path none) :
    now'.text = Function.update now.text path none ∧ places now' = Function.update (places now) path none := by
  rw [TextFiles.text, TextFiles.text, places, places, h, Function.comp_update, Function.comp_update]
  exact ⟨rfl, rfl⟩

theorem writeFile_textFiles (hdir : now.entry path.pop = some .dir) (hplace : now.entry path ≠ some .dir)
    (contents : Str) : textFiles.writeFile now path contents = (now.put path contents hdir hplace, .ok ()) := by
  simp only [textFiles]
  rw [dif_neg hplace, dif_pos hdir]

theorem missing_eq_notFound (h : ∀ dir ∈ path.ancestors, now.text dir = none) :
    now.belowText path = false ∧ now.missing path = TextFiles.notFoundError := by
  have hbelow : now.belowText path = false := by
    rw [TextFiles.belowText, List.any_eq_false]
    intro dir hdir
    simp [h dir hdir]
  refine ⟨hbelow, ?_⟩
  rw [TextFiles.missing, hbelow, if_neg Bool.false_ne_true]

theorem text_makeDirs (h : ∀ dir ∈ path.ancestors, now.text dir = none) : (now.makeDirs path).text = now.text := by
  funext other
  by_cases hother : path.startsWith other = true
  · have hdir : (now.makeDirs path).entry other = some .dir := if_pos hother
    rw [h other (mem_ancestors_iff.mpr hother), TextFiles.text, Function.comp_apply, hdir]
    rfl
  · have hsame : (now.makeDirs path).entry other = now.entry other := if_neg hother
    rw [TextFiles.text, TextFiles.text, Function.comp_apply, Function.comp_apply, hsame]

theorem places_makeDirs (now : TextFiles) (path : AbsolutePathBuf) :
    places (now.makeDirs path) = fun other => if path.startsWith other then some .dir else places now other := by
  funext other
  rw [places, Function.comp_apply]
  exact apply_ite (Option.map Place.ofEntry) _ _ _

theorem putFile_of_dir (hdir : now.entry path.pop = some .dir) :
    putFile (places now) path = Function.update (places now) path (some .file) := by
  funext other
  rw [putFile]
  by_cases heq : other = path
  · rw [heq, Function.update_self, Function.update_self]
  · rw [Function.update_of_ne heq, Function.update_of_ne heq]
    by_cases hother : path.startsWith other = true
    · rw [if_pos hother, places_eq_dir.mpr (TextFiles.above_pop hdir hother heq)]
    · rw [if_neg hother]

theorem putFile_of_makeDirs (now : TextFiles) (path : AbsolutePathBuf) :
    putFile (places now) path = Function.update (places (now.makeDirs path.pop)) path (some .file) := by
  rw [places_makeDirs, putFile]
  funext other
  by_cases heq : other = path
  · rw [heq, Function.update_self, Function.update_self]
  · have hiff : path.startsWith other = path.pop.startsWith other := by
      rw [Bool.eq_iff_iff, startsWith_iff_pop, or_iff_right heq]
    rw [Function.update_of_ne heq, Function.update_of_ne heq, hiff]

theorem createDirectory_of_no_text (h : ∀ dir ∈ path.ancestors, now.text dir = none) :
    textFiles.createDirectory now path ⟨true⟩ = (now.makeDirs path, .ok ()) := by
  simp only [textFiles, if_true]
  rw [h _ (mem_ancestors_iff.mpr (startsWith_self _)), (missing_eq_notFound h).1]
  rfl

/-- Without its directory there is no file, and the lookup meets none. -/
theorem writeFile_of_no_dir (hroom : HasRoom (places now) path) (hdir : now.entry path.pop ≠ some .dir)
    (hroot : path ≠ .root) (contents : Str) :
    textFiles.writeFile now path contents = (now, .error TextFiles.notFoundError) := by
  have hplace : now.entry path ≠ some .dir := fun h => hroom.1 (places_eq_dir.mpr h)
  have hnone : now.entry path = none := by
    by_contra hthere
    exact hdir (TextFiles.pop_dir hthere hroot)
  have hall : ∀ dir ∈ path.ancestors, now.text dir = none := by
    intro dir hmem
    rcases startsWith_iff_pop.mp (mem_ancestors_iff.mp hmem) with rfl | habove
    · simp [TextFiles.text, hnone]
    · exact places_ne_file.mp (hroom.2 dir (mem_ancestors_iff.mpr habove))
  simp only [textFiles]
  rw [dif_neg hplace, dif_neg hdir, (missing_eq_notFound hall).2]

/-- Where there is room the file is written, with the directories above it. -/
theorem write_of_hasRoom (hroom : HasRoom (places now) path) (contents : Str) :
    ∃ now', writeFileWithMissingParentRetry textFiles now path contents = (now', .ok ()) ∧
      now'.text = Function.update now.text path (some contents) ∧ places now' = putFile (places now) path := by
  have hplace : now.entry path ≠ some .dir := fun h => hroom.1 (places_eq_dir.mpr h)
  by_cases hdir : now.entry path.pop = some .dir
  · refine ⟨now.put path contents hdir hplace, ?_, (update_entry rfl).1, ?_⟩
    · rw [writeFileWithMissingParentRetry, writeFile_textFiles hdir hplace]
    · rw [putFile_of_dir hdir]
      exact (update_entry rfl).2
  · have hroot : path ≠ .root := by
      rintro rfl
      exact hdir now.root_dir
    have hpop : ∀ dir ∈ path.pop.ancestors, now.text dir = none :=
      fun dir hmem => places_ne_file.mp (hroom.2 dir hmem)
    have hparent : path.parent = some path.pop := if_neg fun hnil => hroot (ext_names hnil)
    have hmade : (now.makeDirs path.pop).entry path.pop = some .dir := if_pos (startsWith_self _)
    have hfree : (now.makeDirs path.pop).entry path ≠ some .dir := by
      rw [show (now.makeDirs path.pop).entry path = now.entry path from if_neg fun h => hroot (eq_root_of_pop h)]
      exact hplace
    refine ⟨(now.makeDirs path.pop).put path contents hmade hfree, ?_, ?_, ?_⟩
    · rw [writeFileWithMissingParentRetry, writeFile_of_no_dir hroom hdir hroot]
      simp only [TextFiles.notFoundError, if_true, hparent, createDirectory_of_no_text hpop]
      rw [writeFileWithContext, writeFile_textFiles hmade hfree]
    · rw [(update_entry rfl).1, text_makeDirs hpop]
    · rw [(update_entry rfl).2, putFile_of_makeDirs]

/-- A file that is there is written over. -/
theorem write_of_text (h : now.text path ≠ none) (contents : Str) :
    ∃ now', writeFileWithContext textFiles now path contents = (now', .ok ()) ∧
      now'.text = Function.update now.text path (some contents) ∧ places now' = places now := by
  obtain ⟨old, hold⟩ := Option.ne_none_iff_exists'.mp h
  have hentry := TextFiles.text_eq_some.mp hold
  have hplace : now.entry path ≠ some .dir := by simp [hentry]
  have hdir : now.entry path.pop = some .dir := TextFiles.pop_dir (by simp [hentry]) (TextFiles.ne_root_of_text h)
  refine ⟨now.put path contents hdir hplace, ?_, (update_entry rfl).1, ?_⟩
  · rw [writeFileWithContext, writeFile_textFiles hdir hplace]
  · rw [(update_entry rfl).2, Function.update_eq_self_iff, places, Function.comp_apply, hentry]
    rfl

theorem remove_of_text (h : now.text path ≠ none) (context : Str) :
    ∃ now', removeFileWithContext textFiles now path context = (now', .ok ()) ∧
      now'.text = Function.update now.text path none ∧ places now' = Function.update (places now) path none := by
  obtain ⟨contents, htext⟩ := Option.ne_none_iff_exists'.mp h
  have hentry := TextFiles.text_eq_some.mp htext
  have hroot := TextFiles.ne_root_of_text h
  refine ⟨now.removeAll path hroot, ?_, clear_entry (TextFiles.entry_removeAll h hroot)⟩
  simp [removeFileWithContext, removeFile, textFiles, hentry, hroot]

/-! ## Where the changes come from -/

/-- The hunks before, what they are shown as, and the files after them. -/
structure Previewed (inv : InvocationEnv) (env : HostEnv) (cwd : AbsolutePathBuf) (files : TextFiles)
    (earlier : List Hunk) (changes : Changes) (now : Texts) : Prop where
  shown : ∀ path change, changes path = some change →
    ∃ last, lastAt env cwd earlier path = some last ∧ previewChange inv env textFiles cwd files last = .ok change
  silent : ∀ path, changes path = none → ∀ hunk ∈ earlier, hunk.resolvePath env cwd ≠ path
  applied : ChangesApplied files.text changes now

theorem previewChange_delete {p : Str} {change : ApplyPatchFileChange}
    (h : previewChange inv env textFiles cwd files (.deleteFile p) = .ok change) :
    files.text (Hunk.resolvePath env (.deleteFile p) cwd) ≠ none ∧ ∃ content, change = .delete content := by
  simp only [previewChange] at h
  split at h
  · rename_i content hread
    cases h
    rw [show files.text _ = some content from textFilesContents.contents_readFileText _ _ _ hread]
    exact ⟨Option.some_ne_none _, content, rfl⟩
  · cases h

theorem previewChange_update {p : Str} {movePath : Option Str} {chunks : List UpdateFileChunk}
    {change : ApplyPatchFileChange}
    (h : previewChange inv env textFiles cwd files (.updateFile p movePath chunks) = .ok change) :
    ∃ applied diff, deriveNewContentsFromChunks textFiles files
        (Hunk.resolvePath env (.updateFile p movePath chunks) cwd) chunks = .ok applied ∧
      change = .update diff (movePath.map fun dest => AbsolutePathBuf.resolvePathAgainstBase env dest cwd)
        applied.newContents := by
  simp only [previewChange] at h
  split at h
  · rename_i applied hderive
    cases h
    exact ⟨applied, _, hderive, rfl⟩
  · cases h

theorem movePath_previewChange {hunk : Hunk} {change : ApplyPatchFileChange}
    (h : previewChange inv env textFiles cwd files hunk = .ok change) :
    change.movePath = hunk.destination env cwd := by
  cases hunk with
  | addFile path contents =>
      cases h
      rfl
  | deleteFile path =>
      obtain ⟨-, content, rfl⟩ := previewChange_delete h
      rfl
  | updateFile path movePath chunks =>
      obtain ⟨applied, diff, -, rfl⟩ := previewChange_update h
      cases movePath with
      | none => rfl
      | some dest => rfl

theorem mem_of_lastAt {hunks : List Hunk} {last : Hunk} (h : lastAt env cwd hunks path = some last) :
    last ∈ hunks ∧ last.resolvePath env cwd = path := by
  have hmem := List.mem_filter.mp (List.mem_of_getLast? h)
  exact ⟨hmem.1, of_decide_eq_true hmem.2⟩

theorem lastAt_concat_self (hunks : List Hunk) (hunk : Hunk) :
    lastAt env cwd (hunks ++ [hunk]) (hunk.resolvePath env cwd) = some hunk := by
  unfold lastAt
  rw [List.filter_append, List.filter_cons_of_pos (by simp), List.filter_nil, List.getLast?_concat]

theorem lastAt_concat_of_ne (hunks : List Hunk) {hunk : Hunk} (h : hunk.resolvePath env cwd ≠ path) :
    lastAt env cwd (hunks ++ [hunk]) path = lastAt env cwd hunks path := by
  unfold lastAt
  rw [List.filter_append, List.filter_cons_of_neg (by simpa using h), List.filter_nil, List.append_nil]

section

variable {earlier : List Hunk} {texts : Texts}

theorem Previewed.touches_of_movedTo (h : Previewed inv env cwd files earlier changes texts)
    (hto : MovedTo changes path) : ∃ hunk ∈ earlier, hunk.destination env cwd = some path := by
  obtain ⟨source, diff, new, hsource⟩ := hto
  obtain ⟨last, hlast, hshown⟩ := h.shown source _ hsource
  exact ⟨last, (mem_of_lastAt hlast).1, (movePath_previewChange hshown).symm⟩

theorem Previewed.not_movedTo (h : Previewed inv env cwd files earlier changes texts)
    (honly : OnlyRewritten env cwd earlier path) : ¬ MovedTo changes path := by
  intro hto
  obtain ⟨hunk, hmem, hdest⟩ := h.touches_of_movedTo hto
  have hnone := (honly hunk hmem (Or.inr hdest)).2
  rw [hdest] at hnone
  cases hnone

theorem Previewed.not_movedAway (h : Previewed inv env cwd files earlier changes texts)
    (honly : OnlyRewritten env cwd earlier path) : ¬ MovedAway changes path := by
  rintro ⟨diff, dest, new, hpath⟩
  obtain ⟨last, hlast, hshown⟩ := h.shown path _ hpath
  obtain ⟨hmem, hat⟩ := mem_of_lastAt hlast
  have hnone := (honly last hmem (Or.inl hat)).2
  rw [← movePath_previewChange hshown] at hnone
  cases hnone

/-- A path that nothing touched is as it was, and no change stands under it. -/
theorem Previewed.of_untouched (h : Previewed inv env cwd files earlier changes texts)
    (huntouched : ∀ hunk ∈ earlier, ¬ hunk.Touches env cwd path) :
    changes path = none ∧ ¬ MovedTo changes path ∧ texts path = files.text path := by
  have hto : ¬ MovedTo changes path := by
    intro hto
    obtain ⟨hunk, hmem, hdest⟩ := h.touches_of_movedTo hto
    exact huntouched hunk hmem (Or.inr hdest)
  have hnone : changes path = none := by
    cases hpath : changes path with
    | none => rfl
    | some change =>
        obtain ⟨last, hlast, -⟩ := h.shown path _ hpath
        obtain ⟨hmem, hat⟩ := mem_of_lastAt hlast
        exact absurd (Or.inl hat) (huntouched last hmem)
  refine ⟨hnone, hto, h.applied.unchanged path hnone ?_⟩
  intro source diff new hsource
  exact hto ⟨source, diff, new, hsource⟩

theorem onlyRewritten_of_untouched (huntouched : ∀ hunk ∈ earlier, ¬ hunk.Touches env cwd path) :
    OnlyRewritten env cwd earlier path := by
  intro hunk hmem htouches
  exact absurd htouches (huntouched hunk hmem)

theorem Previewed.concat (h : Previewed inv env cwd files earlier changes texts) {hunk : Hunk}
    {change : ApplyPatchFileChange} (hshown : previewChange inv env textFiles cwd files hunk = .ok change)
    {texts' : Texts}
    (happlied : ChangesApplied files.text (Function.update changes (hunk.resolvePath env cwd) (some change)) texts') :
    Previewed inv env cwd files (earlier ++ [hunk])
      (Function.update changes (hunk.resolvePath env cwd) (some change)) texts' := by
  constructor
  case shown =>
    intro p change' hp
    by_cases hpath : p = hunk.resolvePath env cwd
    · subst hpath
      rw [Function.update_self, Option.some.injEq] at hp
      subst hp
      exact ⟨hunk, lastAt_concat_self earlier hunk, hshown⟩
    · rw [Function.update_of_ne hpath] at hp
      rw [lastAt_concat_of_ne earlier (Ne.symm hpath)]
      exact h.shown p change' hp
  case silent =>
    intro p hp other hother
    have hpath : p ≠ hunk.resolvePath env cwd := by
      rintro rfl
      rw [Function.update_self] at hp
      cases hp
    rw [Function.update_of_ne hpath] at hp
    rcases List.mem_append.mp hother with hother | hother
    · exact h.silent p hp other hother
    · rw [List.mem_singleton.mp hother]
      exact Ne.symm hpath
  case applied => exact happlied

/-! ## One hunk -/

theorem derive_of_text_eq (hsame : now.text path = files.text path) {chunks : List UpdateFileChunk}
    {applied : AppliedPatch} (h : deriveNewContentsFromChunks textFiles files path chunks = .ok applied) :
    deriveNewContentsFromChunks textFiles now path chunks = .ok applied ∧ now.text path ≠ none := by
  obtain ⟨original, horiginal, hnew⟩ := contents_of_derive textFilesContents h
  have hnow : now.text path = some original := hsame.trans horiginal
  have hread : textFiles.readFileText now path = .ok original := by
    simp only [textFiles, TextFiles.text_eq_some.mp hnow]
  refine ⟨?_, by simp [hnow]⟩
  rw [deriveNewContentsFromChunks, hread]
  exact hnew

theorem Previewed.exists_of_delete (h : Previewed inv env cwd files earlier changes texts)
    (honly : OnlyRewritten env cwd earlier path) (hfile : files.text path ≠ none)
    (hlast : ∀ last ∈ lastAt env cwd earlier path, ¬ last.IsDelete) : texts path ≠ none := by
  cases hpath : changes path with
  | none =>
      have huntouched : ∀ hunk ∈ earlier, ¬ hunk.Touches env cwd path := by
        intro hunk hmem htouches
        exact h.silent path hpath hunk hmem (honly hunk hmem htouches).1
      rw [(h.of_untouched huntouched).2.2]
      exact hfile
  | some change =>
      obtain ⟨last, hat, hshown⟩ := h.shown path _ hpath
      cases change with
      | add content =>
          rw [h.applied.add path content hpath]
          exact Option.some_ne_none _
      | delete content =>
          cases last with
          | deleteFile p => exact absurd trivial (hlast _ hat)
          | addFile p contents => cases hshown
          | updateFile p movePath chunks =>
              obtain ⟨_, _, -, hcontra⟩ := previewChange_update hshown
              cases hcontra
      | update diff movePath new =>
          cases movePath with
          | none =>
              rw [h.applied.update path diff new hpath]
              exact Option.some_ne_none _
          | some dest => exact absurd ⟨diff, dest, new, hpath⟩ (h.not_movedAway honly)

/-- A hunk that stands alone and has room for its file does what it is shown to do. -/
theorem Previewed.step (h : Previewed inv env cwd files earlier changes now.text) {hunk : Hunk}
    (halone : StandsAlone env cwd earlier hunk) (hself : hunk.destination env cwd ≠ some (hunk.resolvePath env cwd))
    (hroom : ∀ path ∈ hunk.written env cwd, HasRoom (places now) path)
    {change : ApplyPatchFileChange} (hshown : previewChange inv env textFiles cwd files hunk = .ok change) :
    ∃ now', applyHunk env textFiles cwd now hunk = (now', .ok ()) ∧
      Previewed inv env cwd files (earlier ++ [hunk])
        (Function.update changes (hunk.resolvePath env cwd) (some change)) now'.text ∧
      places now' = placesAfter env cwd (places now) hunk := by
  cases hunk with
  | addFile p contents =>
      cases hshown
      obtain ⟨now', hwrite, htext, hplaces⟩ := write_of_hasRoom (hroom _ rfl) contents
      refine ⟨now', hwrite, h.concat rfl ?_, hplaces⟩
      rw [htext]
      exact h.applied.rewrite (h.not_movedTo halone) (h.not_movedAway halone) rfl
  | deleteFile p =>
      obtain ⟨honly, hlast⟩ := halone
      obtain ⟨hthere, content, rfl⟩ := previewChange_delete hshown
      obtain ⟨now', hremove, htext, hplaces⟩ := remove_of_text (h.exists_of_delete honly hthere hlast)
        "Failed to delete file "
      refine ⟨now', hremove, h.concat hshown ?_, hplaces⟩
      rw [htext]
      exact h.applied.rewrite (h.not_movedTo honly) (h.not_movedAway honly) rfl
  | updateFile p movePath chunks =>
      have hpath : ∀ other ∈ earlier,
          ¬ other.Touches env cwd (Hunk.resolvePath env (.updateFile p movePath chunks) cwd) :=
        fun other hother => (halone other hother).1
      obtain ⟨hnone, hto, hsame⟩ := h.of_untouched hpath
      have honly := onlyRewritten_of_untouched hpath
      obtain ⟨applied, diff, hderive, rfl⟩ := previewChange_update hshown
      obtain ⟨hderiveNow, hthere⟩ := derive_of_text_eq hsame hderive
      cases movePath with
      | none =>
          obtain ⟨now', hwrite, htext, hplaces⟩ := write_of_text hthere applied.newContents
          refine ⟨now', ?_, h.concat hshown ?_, hplaces⟩
          · simp only [applyHunk, applyUpdate, hderiveNow]
            exact hwrite
          · rw [htext]
            exact h.applied.rewrite hto (h.not_movedAway honly) rfl
      | some dest =>
          have hdest := h.of_untouched fun other hother => (halone other hother).2 _ rfl
          have hne : AbsolutePathBuf.resolvePathAgainstBase env dest cwd ≠
              Hunk.resolvePath env (.updateFile p (some dest) chunks) cwd := by
            intro heq
            exact hself (congrArg some heq)
          obtain ⟨written, hwrite, hwritten, hfilled⟩ := write_of_hasRoom (hroom _ rfl) applied.newContents
          have hstays : written.text (Hunk.resolvePath env (.updateFile p (some dest) chunks) cwd) ≠ none := by
            rw [hwritten, Function.update_of_ne hne.symm]
            exact hthere
          obtain ⟨now', hremove, htext, hplaces⟩ := remove_of_text hstays "Failed to remove original "
          refine ⟨now', ?_, h.concat hshown ?_, ?_⟩
          · simp only [applyHunk, applyUpdate, hderiveNow, hwrite]
            exact hremove
          · rw [htext, hwritten]
            exact h.applied.moveTo hne hnone hdest.1 hto hdest.2.1 _ _
          · rw [hplaces, hfilled]
            rfl

/-! ## All hunks -/

theorem previewed_nil (files : TextFiles) : Previewed inv env cwd files [] (fun _ => none) files.text := by
  constructor
  case shown =>
    intro path change h
    cases h
  case silent =>
    intro path _ hunk hmem
    cases hmem
  case applied =>
    constructor
    case unchanged =>
      intro path _ _
      rfl
    all_goals
      intros
      simp_all

/-- The run does what the preview shows. -/
theorem Previewed.run {hunks : List Hunk} (h : Previewed inv env cwd files earlier changes now.text)
    (halone : AllStandAlone env cwd earlier hunks) (hself : NoMoveOntoItself env cwd hunks)
    (hroom : AllHaveRoom env cwd (places now) hunks) {changes' : Changes} (hpreview : previewLoop inv env textFiles cwd files changes hunks = .ok changes')
    (affected : AffectedPaths) :
    ∃ now' affected', applyLoop env textFiles cwd now affected hunks = (now', .ok affected') ∧
      Previewed inv env cwd files (earlier ++ hunks) changes' now'.text := by
  induction hunks generalizing earlier changes now affected with
  | nil =>
      cases hpreview
      rw [List.append_nil]
      exact ⟨now, affected, rfl, h⟩
  | cons hunk hunks ih =>
      unfold previewLoop at hpreview
      split at hpreview
      · rename_i change hshown
        obtain ⟨next, happly, hnext, hplaces⟩ := h.step halone.1 (hself hunk List.mem_cons_self) hroom.1 hshown
        obtain ⟨now', affected', hloop, hfinal⟩ := ih hnext halone.2
          (fun other hmem => hself other (List.mem_cons_of_mem _ hmem)) (hplaces ▸ hroom.2) hpreview
          (affected.record hunk)
        refine ⟨now', affected', ?_, ?_⟩
        · rw [applyLoop, happly]
          exact hloop
        · rw [List.append_assoc] at hfinal
          exact hfinal
      · cases hpreview

end

end Codrex.ApplyPatch
