import Codrex.ListDir.Listing
import Mathlib.Data.List.Sort
import Mathlib.Data.Prod.Lex

/-!
# When a listing is a faithful tree
-/

namespace Codrex.ListDir

open Text

/-! ## Texts in order -/

theorem append_lt_append_iff {s t u : Str} : s ++ t < s ++ u ↔ t < u := by
  induction s with
  | nil => rfl
  | cons c s ih =>
      rw [List.cons_append, List.cons_append, List.cons_lt_cons_iff, ih]
      simp

theorem le_append (s t : Str) : s ≤ s ++ t := by
  refine not_lt.mp fun h => ?_
  rw [← List.append_nil s, List.append_assoc, append_lt_append_iff] at h
  exact absurd h (List.not_lt_nil _)

/-- What lies between a text and a longer one continues it with no more than the longer one does. -/
theorem exists_rest_of_between {s t key : Str} (hlower : s ≤ key) (hupper : key ≤ s ++ t) :
    ∃ rest, key = s ++ rest ∧ rest ≤ t := by
  induction s generalizing key with
  | nil => exact ⟨key, rfl, hupper⟩
  | cons c s ih =>
      cases key with
      | nil => exact absurd (List.nil_lt_cons c s) (not_lt.mpr hlower)
      | cons d key =>
          have hlower' := not_lt.mpr hlower
          have hupper' := not_lt.mpr hupper
          rw [List.cons_append, List.cons_lt_cons_iff] at hupper'
          rw [List.cons_lt_cons_iff] at hlower'
          obtain rfl : c = d := by
            rcases lt_trichotomy c d with hlt | heq | hgt
            · exact absurd (.inl hlt) hupper'
            · exact heq
            · exact absurd (.inl hgt) hlower'
          have hlow : s ≤ key := not_lt.mp fun h => hlower' (.inr ⟨rfl, h⟩)
          have hup : key ≤ s ++ t := not_lt.mp fun h => hupper' (.inr ⟨rfl, h⟩)
          obtain ⟨rest, rfl, hrest⟩ := ih hlow hup
          exact ⟨rest, rfl, hrest⟩

/-! ## Keys -/

theorem slash_not_mem (name : FileName) : '/' ∉ name.toStringLossy := by
  intro h
  have hbyte : (47 : UInt8) ∈ name.bytes := Utf8.mem_of_mem_decodeLossy (by decide) h
  exact name.valid.2.2.2 hbyte

theorem toStringLossy_singleton (name : FileName) : toStringLossy [name] = name.toStringLossy := by
  simp [toStringLossy, List.intercalate]

theorem toStringLossy_append {front rest : PathNames} (hfront : front ≠ []) (hrest : rest ≠ []) :
    toStringLossy (front ++ rest) = toStringLossy front ++ '/' :: toStringLossy rest := by
  obtain ⟨first, others, rfl⟩ := List.exists_cons_of_ne_nil hrest
  induction front with
  | nil => exact absurd rfl hfront
  | cons name front ih =>
      cases front with
      | nil => simp [toStringLossy, List.intercalate]
      | cons other front =>
          have htail := ih (List.cons_ne_nil _ _)
          simp only [toStringLossy, List.intercalate, List.cons_append, List.map_cons, List.intersperse_cons_cons,
            List.flatten_cons] at htail ⊢
          rw [htail]
          simp

/-- A path begins with the path of what leads to it, and goes on with a separator. -/
theorem exists_tail (front : PathNames) (rest : PathNames) (hfront : front ≠ []) :
    ∃ tail, toStringLossy (front ++ rest) = toStringLossy front ++ tail ∧ ∀ c ∈ tail.head?, c = '/' := by
  by_cases hrest : rest = []
  · subst hrest
    exact ⟨[], by simp, by simp⟩
  · exact ⟨_, toStringLossy_append hfront hrest, by simp⟩

/-- Siblings have the text in front of their names in common. -/
theorem exists_common (parent : PathNames) : ∃ common, ∀ name, toStringLossy (parent ++ [name]) = common ++ name.toStringLossy := by
  by_cases hparent : parent = []
  · subst hparent
    exact ⟨[], fun name => toStringLossy_singleton name⟩
  · refine ⟨toStringLossy parent ++ ['/'], fun name => ?_⟩
    rw [toStringLossy_append hparent (List.cons_ne_nil _ _), toStringLossy_singleton]
    simp

def cut (text : Str) : Str := fittingChars text maxEntryLength

theorem cut_starts {s t : Str} (h : s <+: t) : cut s <+: cut t :=
  starts_fittingChars ((fittingChars_starts _ _).trans h) (byteLen_fittingChars_le _ _)

/-- What comes after the limit is cut off. -/
theorem cut_append {s : Str} (hlong : maxEntryLength ≤ byteLen s) (t : Str) : cut (s ++ t) = cut s := by
  refine ((cut_starts (List.prefix_append s t)).eq_of_length_le (List.IsPrefix.length_le ?_)).symm
  have hle : byteLen (cut (s ++ t)) ≤ maxEntryLength := byteLen_fittingChars_le _ _
  refine starts_fittingChars ?_ hle
  rcases List.prefix_or_prefix_of_prefix (fittingChars_starts (s ++ t) maxEntryLength) (List.prefix_append s t) with
    hshort | hwhole
  · exact hshort
  · obtain ⟨more, hmore⟩ := hwhole
    have hlen := congrArg byteLen hmore
    rw [byteLen_append] at hlen
    have hnil : more = [] := byteLen_eq_zero.mp (by rw [cut] at hle; omega)
    rw [hnil, List.append_nil] at hmore
    rw [cut, ← hmore]

theorem cut_eq_self {s : Str} (h : byteLen s ≤ maxEntryLength) : cut s = s := fittingChars_eq_self h

/-- Below a directory whose path is not too long a key goes on with the separator. -/
theorem exists_cut {s : Str} (h : byteLen s < maxEntryLength) (t : Str) :
    ∃ rest, cut (s ++ '/' :: t) = s ++ '/' :: rest := by
  have hstarts : s ++ ['/'] <+: cut (s ++ '/' :: t) := by
    refine starts_fittingChars ⟨t, by simp⟩ ?_
    have hslash : byteLen ['/'] = 1 := by decide
    rw [byteLen_append, hslash]
    exact h
  obtain ⟨rest, hrest⟩ := hstarts
  exact ⟨rest, by rw [← hrest]; simp⟩

variable {sort : SortUnstable} {tree : DirTree} {readDenyMatcher : Option ReadDenyMatcher} {path : PathNames}
  {depth : Nat}

theorem plain_of_visible (hplain : tree.Plain) {dir relativePath : PathNames} {kind : DirEntryKind}
    (h : tree.Visible readDenyMatcher dir depth relativePath kind) : ∀ name ∈ relativePath, 92 ∉ name.bytes := by
  induction relativePath generalizing dir depth with
  | nil => simp
  | cons first rest ih =>
      cases depth with
      | zero => exact h.elim
      | succ depth =>
          rintro name hname
          rcases visible_cons.mp h with ⟨rfl, hshows⟩ | ⟨hshows, hbelow⟩
          · obtain rfl := List.mem_singleton.mp hname
            exact (hplain _ _ hshows.1).2
          · rcases List.mem_cons.mp hname with rfl | hname
            · exact (hplain _ _ hshows.1).2
            · exact ih hbelow name hname

theorem mem_of_mem_toStringLossy {c : Char} {relativePath : PathNames} (h : c ∈ toStringLossy relativePath)
    (hne : c ≠ '/') : ∃ name ∈ relativePath, c ∈ name.toStringLossy := by
  induction relativePath with
  | nil => simp [toStringLossy, List.intercalate] at h
  | cons name rest ih =>
      by_cases hrest : rest = []
      · subst hrest
        rw [toStringLossy_singleton] at h
        exact ⟨name, List.mem_cons_self, h⟩
      · rw [← List.singleton_append, toStringLossy_append (List.cons_ne_nil _ _) hrest, toStringLossy_singleton] at h
        rcases List.mem_append.mp h with hfirst | hlater
        · exact ⟨name, List.mem_cons_self, hfirst⟩
        · rcases List.mem_cons.mp hlater with rfl | hlater
          · exact absurd rfl hne
          · obtain ⟨other, hother, hmem⟩ := ih hlater
            exact ⟨other, List.mem_cons_of_mem _ hother, hmem⟩

/-- Without backslashes the sort key is the path, as far as it is not too long. -/
theorem formatEntryName_eq {relativePath : PathNames} (h : ∀ name ∈ relativePath, 92 ∉ name.bytes) :
    formatEntryName relativePath = cut (toStringLossy relativePath) := by
  have hbackslash : '\\' ∉ toStringLossy relativePath := by
    intro hmem
    obtain ⟨name, hname, hmem⟩ := mem_of_mem_toStringLossy hmem (by decide)
    exact h name hname (Utf8.mem_of_mem_decodeLossy (by decide) hmem)
  rw [formatEntryName, replace_singleton, cut]
  congr 1
  refine (List.map_congr_left fun c hc => if_neg ?_).trans (List.map_id _)
  rintro rfl
  exact hbackslash hc

theorem key_of_visible (hplain : tree.Plain) {relativePath : PathNames} {kind : DirEntryKind}
    (h : tree.Visible readDenyMatcher path depth relativePath kind) :
    formatEntryName relativePath = cut (toStringLossy relativePath) := formatEntryName_eq (plain_of_visible hplain h)

/-! ## Between a directory and what is below it -/

/-- A key between that of a directory and one below it goes on from the text of the directory. -/
theorem exists_key_rest {directory below key tail : Str} (hshort : byteLen directory < maxEntryLength)
    (hlower : cut (directory ++ tail) ≤ key) (hupper : key ≤ cut (directory ++ '/' :: below)) :
    ∃ rest, key = directory ++ rest ∧ ∀ c ∈ rest.head?, c ≤ '/' := by
  obtain ⟨cutBelow, hcut⟩ := exists_cut hshort below
  have hstarts : directory <+: cut (directory ++ tail) :=
    starts_fittingChars (List.prefix_append _ _) (Nat.le_of_lt hshort)
  obtain ⟨more, hmore⟩ := hstarts
  have hfirst : directory ≤ key := le_trans (hmore ▸ le_append directory more) hlower
  rw [hcut] at hupper
  obtain ⟨rest, rfl, hrest⟩ := exists_rest_of_between hfirst hupper
  refine ⟨rest, rfl, ?_⟩
  intro c hc
  cases rest with
  | nil => cases hc
  | cons d rest =>
      obtain rfl : d = c := Option.some.inj hc
      refine not_lt.mp fun hlt => not_lt.mpr hrest ?_
      exact List.cons_lt_cons_iff.mpr (.inl hlt)

variable {common first second tail rest : Str}

/-- A name has no separator, so what goes on from a path goes on from the sibling that it leads through. -/
theorem starts_cut_sibling (hfirst : '/' ∉ first) (htail : ∀ c ∈ tail.head?, c = '/')
    (hkey : cut (common ++ second ++ tail) = common ++ first ++ rest) :
    common ++ first <+: cut (common ++ second) := by
  have hstarts : common ++ first <+: cut (common ++ second ++ tail) := ⟨rest, hkey.symm⟩
  by_cases hlong : maxEntryLength ≤ byteLen (common ++ second)
  · rwa [cut_append hlong] at hstarts
  · have hself : cut (common ++ second) = common ++ second := cut_eq_self (by omega)
    have hsibling := cut_starts (List.prefix_append (common ++ second) tail)
    rcases List.prefix_or_prefix_of_prefix hstarts hsibling with hfits | hshorter
    · exact hfits
    · rw [hself, List.prefix_append_right_inj] at hshorter
      obtain ⟨more, rfl⟩ := hshorter
      cases more with
      | nil => rw [hself, List.append_nil]
      | cons c more =>
          -- The tail would go on within the name.
          have hwhole : common ++ (second ++ c :: more) <+: common ++ second ++ tail :=
            hstarts.trans (fittingChars_starts _ _)
          rw [List.append_assoc, List.prefix_append_right_inj, List.prefix_append_right_inj] at hwhole
          obtain ⟨later, hlater⟩ := hwhole
          have hslash := htail c (by rw [← hlater]; rfl)
          subst hslash
          simp at hfirst

theorem sortsBetween_of_key (hfirst : '/' ∉ first) (hsecond : '/' ∉ second) (htail : ∀ c ∈ tail.head?, c = '/')
    (hkey : cut (common ++ second ++ tail) = common ++ first ++ rest) (hrest : ∀ c ∈ rest.head?, c ≤ '/') :
    ∃ left, cut (common ++ second) = common ++ first ++ left ∧ ∀ c ∈ left.head?, c < '/' := by
  obtain ⟨left, hleft⟩ := starts_cut_sibling hfirst htail hkey
  refine ⟨left, hleft.symm, ?_⟩
  intro c hc
  obtain ⟨later, rfl⟩ : ∃ later, left = c :: later := by
    cases left with
    | nil => cases hc
    | cons d later => exact ⟨later, by rw [Option.some.inj hc]⟩
  have hsibling := cut_starts (List.prefix_append (common ++ second) tail)
  rw [hkey, ← hleft, List.prefix_append_right_inj] at hsibling
  obtain ⟨more, hmore⟩ := hsibling
  refine lt_of_le_of_ne (hrest c (by rw [← hmore]; rfl)) ?_
  rintro rfl
  have hwithin : common ++ first ++ '/' :: later <+: common ++ second := hleft ▸ fittingChars_starts _ _
  rw [List.append_assoc, List.prefix_append_right_inj] at hwithin
  exact hsecond (hwithin.subset (by simp))

/-- Two paths of one length part at some directory. -/
theorem exists_parting {first second : PathNames} (hlength : first.length = second.length) (hne : first ≠ second) :
    ∃ parent name other rest rest', first = parent ++ name :: rest ∧ second = parent ++ other :: rest' ∧ name ≠ other := by
  induction first generalizing second with
  | nil => exact absurd (List.length_eq_zero_iff.mp hlength.symm).symm hne
  | cons name first ih =>
      cases second with
      | nil => cases hlength
      | cons other second =>
          by_cases hsame : name = other
          · subst hsame
            obtain ⟨parent, left, right, rest, rest', rfl, rfl, hparted⟩ :=
              ih (Nat.succ.inj hlength) (fun heq => hne (congrArg _ heq))
            exact ⟨name :: parent, left, right, rest, rest', rfl, rfl, hparted⟩
          · exact ⟨[], name, other, first, second, rfl, rfl, hsame⟩

theorem visible_take {parent rest : PathNames} {name : FileName} {kind : DirEntryKind}
    (h : tree.Visible readDenyMatcher path depth (parent ++ name :: rest) kind) :
    ∃ own, tree.Visible readDenyMatcher path depth (parent ++ [name]) own := by
  by_cases hrest : rest = []
  · exact ⟨kind, hrest ▸ h⟩
  · rw [← List.singleton_append, ← List.append_assoc] at h
    exact ⟨.directory, visible_front (by simp) hrest h⟩

/-- Nothing that is as deep as a directory sorts between it and what is in it. -/
theorem Separated.not_between (hplain : tree.Plain) (h : Separated tree readDenyMatcher path depth)
    {directory other : PathNames} {child : FileName} {kind otherKind : DirEntryKind} (hdirectory : directory ≠ [])
    (hchild : tree.Visible readDenyMatcher path depth (directory ++ [child]) kind)
    (hother : tree.Visible readDenyMatcher path depth other otherKind) (hlength : directory.length = other.length)
    (hne : directory ≠ other) (hlower : formatEntryName directory ≤ formatEntryName other)
    (hupper : formatEntryName other ≤ formatEntryName (directory ++ [child])) : False := by
  obtain ⟨parent, name, sibling, rest, rest', rfl, rfl, hparted⟩ := exists_parting hlength hne
  -- The directory where they part, and the sibling that the other path leads through.
  obtain ⟨next, more, hnext⟩ : ∃ next more, rest ++ [child] = next :: more := by
    cases rest with
    | nil => exact ⟨child, [], rfl⟩
    | cons next rest => exact ⟨next, rest ++ [child], rfl⟩
  have hbelow := hchild
  rw [List.append_assoc, List.cons_append, hnext] at hbelow
  have hparting : ∃ own, tree.Visible readDenyMatcher path depth (parent ++ [name, next]) own := by
    have hsplit : parent ++ name :: next :: more = (parent ++ [name]) ++ next :: more := by simp
    rw [hsplit] at hbelow
    simpa using visible_take hbelow
  obtain ⟨own, hparting⟩ := hparting
  obtain ⟨hshort, hsiblings⟩ := h parent name next own hparting
  obtain ⟨siblingKind, hsibling⟩ := visible_take hother
  have hseparated := hsiblings sibling siblingKind hsibling (Ne.symm hparted)
  obtain ⟨common, hcommon⟩ := exists_common parent
  obtain ⟨directoryTail, hdirectoryTail, -⟩ := exists_tail (parent ++ [name]) rest (by simp)
  obtain ⟨otherTail, hotherTail, htail⟩ := exists_tail (parent ++ [sibling]) rest' (by simp)
  have hchildText := @toStringLossy_append (parent ++ [name]) (next :: more) (by simp) (by simp)
  have hassoc (name : FileName) (rest : PathNames) : parent ++ [name] ++ rest = parent ++ name :: rest := by simp
  rw [hassoc] at hdirectoryTail hotherTail hchildText
  obtain ⟨directoryKind, hdirectoryVisible⟩ : ∃ own, tree.Visible readDenyMatcher path depth (parent ++ name :: rest) own :=
    ⟨_, visible_front hdirectory (by simp) hchild⟩
  have hchildPath : parent ++ name :: rest ++ [child] = parent ++ name :: next :: more := by
    rw [List.append_assoc, List.cons_append, hnext]
  rw [key_of_visible hplain hdirectoryVisible, key_of_visible hplain hother, hdirectoryTail] at hlower
  rw [key_of_visible hplain hchild, key_of_visible hplain hother, hchildPath, hchildText] at hupper
  obtain ⟨keyRest, hkey, hkeyRest⟩ := exists_key_rest hshort hlower hupper
  rw [hotherTail, hcommon, hcommon] at hkey
  obtain ⟨left, hleft, hbefore⟩ :=
    sortsBetween_of_key (slash_not_mem name) (slash_not_mem sibling) htail hkey hkeyRest
  refine hseparated ⟨left, ?_, hbefore⟩
  rw [key_of_visible hplain hsibling, hcommon, hleft, hcommon]

theorem lt_of_below {directory below : Str} (hshort : byteLen directory < maxEntryLength) :
    cut directory < cut (directory ++ '/' :: below) := by
  obtain ⟨rest, hrest⟩ := exists_cut hshort below
  rw [hrest, cut_eq_self (Nat.le_of_lt hshort)]
  nth_rewrite 1 [← List.append_nil directory]
  rw [append_lt_append_iff]
  exact List.nil_lt_cons _ _

/-! ## What is listed -/

section Listed

variable {entries : List DirEntry}

theorem exists_entry (hperm : entries.Perm (tree.below readDenyMatcher path depth [])) {relativePath : PathNames}
    {kind : DirEntryKind} (h : tree.Visible readDenyMatcher path depth relativePath kind) :
    ∃ entry ∈ entries, entry.relativePath = relativePath ∧ entry.kind = kind ∧
      entry.depth + 1 = relativePath.length ∧ entry.name = formatEntryName relativePath := by
  have hne : relativePath ≠ [] := by
    rintro rfl
    exact not_visible_nil _ _ h
  obtain ⟨front, name, rfl⟩ := (List.eq_nil_or_concat' relativePath).resolve_left hne
  have hat := entryAt_concat front name kind
  refine ⟨_, hperm.mem_iff.mpr (mem_below.mpr ⟨_, kind, ?_, hat⟩), relativePath_of_entryAt hat⟩
  rwa [List.append_nil]

theorem visible_of_mem (hperm : entries.Perm (tree.below readDenyMatcher path depth [])) {entry : DirEntry}
    (h : entry ∈ entries) : tree.Visible readDenyMatcher path depth entry.relativePath entry.kind ∧
      entry.depth + 1 = entry.relativePath.length ∧ entry.name = formatEntryName entry.relativePath := by
  obtain ⟨rest, kind, hvisible, hat⟩ := mem_below.mp (hperm.mem_iff.mp h)
  obtain ⟨hpath, hkind, hdepth, hname⟩ := relativePath_of_entryAt hat
  rw [List.nil_append] at hpath hdepth hname
  rw [List.append_nil] at hvisible
  rw [hpath, hkind]
  exact ⟨hvisible, hdepth, hname⟩

theorem nodup_paths (hperm : entries.Perm (tree.below readDenyMatcher path depth [])) :
    (entries.map DirEntry.relativePath).Nodup := (hperm.map _).nodup_iff.mpr (nodup_below [])

theorem getLast?_filter_eq {α : Type} {p : α → Bool} {before between : List α} {found : α} (hfound : p found = true)
    (hbetween : ∀ other ∈ between, p other = false) :
    ((before ++ found :: between).filter p).getLast? = some found := by
  have hnone : between.filter p = [] := List.filter_eq_nil_iff.mpr (by simpa using hbetween)
  rw [List.filter_append, List.filter_cons_of_pos hfound, hnone]
  exact List.getLast?_concat

/-- Where nothing sorts between a directory and what is in it, lines stand under their parents. -/
theorem Separated.underParents (hplain : tree.Plain) (h : Separated tree readDenyMatcher path depth)
    (hperm : entries.Perm (tree.below readDenyMatcher path depth []))
    (hsorted : entries.Pairwise fun first second => first.name ≤ second.name) : UnderParents entries := by
  intro before entry after heq hdeep
  obtain ⟨hvisible, hdepth, hname⟩ := visible_of_mem hperm (heq ▸ List.mem_append_right _ List.mem_cons_self)
  obtain ⟨directory, child, hpath⟩ := (List.eq_nil_or_concat' entry.relativePath).resolve_left (by
    rintro hnil
    rw [hnil] at hdepth
    cases hdepth)
  rw [hpath] at hvisible hdepth hname
  rw [List.length_append, List.length_singleton] at hdepth
  have hdirectory : directory ≠ [] := by
    rintro rfl
    simp at hdepth
    omega
  obtain ⟨parent, name, rfl⟩ := (List.eq_nil_or_concat' directory).resolve_left hdirectory
  have hparent := visible_front hdirectory (List.cons_ne_nil child []) hvisible
  obtain ⟨above, habove, habovePath, -, haboveDepth, haboveName⟩ := exists_entry hperm hparent
  obtain ⟨hshort, -⟩ := h parent name child entry.kind (by simpa using hvisible)
  have hless : above.name < entry.name := by
    rw [haboveName, hname, key_of_visible hplain hparent, key_of_visible hplain hvisible,
      toStringLossy_append hdirectory (List.cons_ne_nil _ _)]
    exact lt_of_below hshort
  rw [heq, List.pairwise_append, List.pairwise_cons] at hsorted
  obtain ⟨hfront, ⟨hlater, -⟩, hcross⟩ := hsorted
  -- The line of the directory comes first.
  have hbefore : above ∈ before := by
    rw [heq] at habove
    rcases List.mem_append.mp habove with hbefore | hafter
    · exact hbefore
    · rcases List.mem_cons.mp hafter with rfl | hafter
      · exact absurd hless (lt_irrefl _)
      · exact absurd hless (not_lt.mpr (hlater above hafter))
  obtain ⟨earlier, between, rfl⟩ := List.append_of_mem hbefore
  rw [hpath, List.dropLast_concat, getLast?_filter_eq, Option.map_some, habovePath]
  · exact decide_eq_true (by omega)
  · intro other hother
    refine decide_eq_false fun hlevel => ?_
    have hmem : other ∈ entries := by
      rw [heq]
      simp [hother]
    obtain ⟨hotherVisible, hotherDepth, hotherName⟩ := visible_of_mem hperm hmem
    have hne : parent ++ [name] ≠ other.relativePath := by
      intro hsame
      have hnodup := nodup_paths hperm
      rw [heq, List.map_append, List.map_append, List.map_cons, habovePath, hsame] at hnodup
      have := (List.nodup_append.mp (List.nodup_append.mp hnodup).1).2.1
      exact (List.nodup_cons.mp this).1 (List.mem_map_of_mem hother)
    have hlower : above.name ≤ other.name :=
      (List.pairwise_cons.mp (List.pairwise_append.mp hfront).2.1).1 other hother
    have hupper : other.name ≤ entry.name :=
      hcross other (List.mem_append_right _ (List.mem_cons_of_mem _ hother)) entry List.mem_cons_self
    rw [haboveName, hotherName] at hlower
    rw [hotherName, hname] at hupper
    exact h.not_between hplain hdirectory hvisible hotherVisible (by omega) hne hlower hupper

end Listed

theorem Separated.listsTree (hplain : tree.Plain) (hdepth : 0 < depth) (h : Separated tree readDenyMatcher path depth)
    (sort : SortUnstable) : ListsTree sort tree readDenyMatcher path depth := by
  obtain ⟨entries, hentries, hperm, hsorted⟩ := @sortedEntries_perm sort tree readDenyMatcher path depth hdepth
  refine ⟨entries, hentries, nodup_paths hperm, ?_, h.underParents hplain hperm hsorted, ?_, ?_, ?_⟩
  · intro relativePath kind
    constructor
    · rintro ⟨entry, hmem, rfl, rfl⟩
      exact (visible_of_mem hperm hmem).1
    · intro hvisible
      obtain ⟨entry, hmem, hpath, hkind, -⟩ := exists_entry hperm hvisible
      exact ⟨entry, hmem, hpath, hkind⟩
  · rintro entry hmem before ⟨rest, hrest⟩ hne
    exact visible_not_denied hne (hrest ▸ (visible_of_mem hperm hmem).1)
  · exact fun limit hlimit => slice_whole hentries hlimit
  · exact fun limit hlimit => pages_slice hentries hlimit

/-! ## What has to be separated -/

theorem exists_split_of_getLast?_filter {α : Type} {p : α → Bool} {l : List α} {found : α}
    (h : (l.filter p).getLast? = some found) :
    ∃ before between, l = before ++ found :: between ∧ ∀ other ∈ between, p other = false := by
  obtain ⟨front, hfront⟩ := List.getLast?_eq_some_iff.mp h
  obtain ⟨first, second, rfl, -, hsecond⟩ := List.filter_eq_append_iff.mp hfront
  obtain ⟨before, between, rfl, -, -, hnone⟩ := List.filter_eq_cons_iff.mp hsecond
  exact ⟨first ++ before, between, by simp, by simpa using List.filter_eq_nil_iff.mp hnone⟩

theorem sorted_of_sortedEntries {disk : Disk} {entries : List DirEntry} {R : DirEntry → DirEntry → Prop}
    (hsort : ∀ entries, (sort.sort entries).Pairwise R)
    (h : sortedEntries sort disk readDenyMatcher path depth = .ok entries) : entries.Pairwise R := by
  rw [sortedEntries] at h
  cases hcollected : collectEntries sort disk readDenyMatcher path depth with
  | error err =>
      rw [hcollected] at h
      cases h
  | ok collected =>
      rw [hcollected] at h
      cases h
      exact hsort collected

/-- In a faithful listing the line of a directory stands before what is in it, and no sibling stands between them. -/
theorem ListsTree.order (h : ListsTree sort tree readDenyMatcher path depth) {R : DirEntry → DirEntry → Prop}
    (hsort : ∀ entries, (sort.sort entries).Pairwise R) {parent : PathNames} {name child sibling : FileName}
    {kind siblingKind : DirEntryKind} (hchild : tree.Visible readDenyMatcher path depth (parent ++ [name, child]) kind)
    (hsibling : tree.Visible readDenyMatcher path depth (parent ++ [sibling]) siblingKind) :
    ∃ above entry beside : DirEntry, above.name = formatEntryName (parent ++ [name]) ∧
      above.relativePath = parent ++ [name] ∧ entry.name = formatEntryName (parent ++ [name, child]) ∧
        entry.relativePath = parent ++ [name, child] ∧ beside.name = formatEntryName (parent ++ [sibling]) ∧
          beside.relativePath = parent ++ [sibling] ∧ R above entry ∧
            (sibling ≠ name → R beside above ∨ R entry beside) := by
  have hdepth : 0 < depth := by
    cases depth with
    | zero => cases parent <;> exact hchild.elim
    | succ depth => exact Nat.succ_pos _
  obtain ⟨entries, hentries, hperm, -⟩ := @sortedEntries_perm sort tree readDenyMatcher path depth hdepth
  obtain ⟨listed, hlisted, -, -, hparents, -⟩ := h
  obtain rfl : entries = listed := Except.ok.inj (hentries.symm.trans hlisted)
  have hsorted := sorted_of_sortedEntries hsort hentries
  obtain ⟨entry, hentry, hentryPath, -, hentryDepth, hentryName⟩ := exists_entry hperm hchild
  obtain ⟨beside, hbeside, hbesidePath, -, hbesideDepth, hbesideName⟩ := exists_entry hperm hsibling
  obtain ⟨before, after, heq⟩ := List.append_of_mem hentry
  have hdeep : 0 < entry.depth := by
    rw [List.length_append] at hentryDepth
    simp only [List.length_cons, List.length_nil] at hentryDepth
    omega
  have hline := hparents before entry after heq hdeep
  obtain ⟨above, hlast, habovePath⟩ := Option.map_eq_some_iff.mp hline
  obtain ⟨earlier, between, rfl, hbetween⟩ := exists_split_of_getLast?_filter hlast
  have hdropLast : (parent ++ [name, child]).dropLast = parent ++ [name] := by
    rw [← List.singleton_append, ← List.append_assoc, List.dropLast_concat]
  rw [hentryPath, hdropLast] at habovePath
  have haboveName := (visible_of_mem hperm (heq ▸ by simp : above ∈ entries)).2.2
  rw [habovePath] at haboveName
  rw [heq, List.pairwise_append, List.pairwise_append, List.pairwise_cons, List.pairwise_cons] at hsorted
  obtain ⟨⟨-, -, hearlier⟩, ⟨hafter, -⟩, hcross⟩ := hsorted
  refine ⟨above, entry, beside, haboveName, habovePath, hentryName, hentryPath, hbesideName, hbesidePath,
    hcross above (by simp) entry List.mem_cons_self, ?_⟩
  intro hne
  rw [heq] at hbeside
  rcases List.mem_append.mp hbeside with hfront | hback
  · rcases List.mem_append.mp hfront with hfirst | hmiddle
    · exact .inl (hearlier beside hfirst above List.mem_cons_self)
    · rcases List.mem_cons.mp hmiddle with rfl | hmiddle
      · simp [hbesidePath, hne] at habovePath
      · -- A sibling between them would be the nearest line one level up.
        have hlevel := of_decide_eq_false (hbetween beside hmiddle)
        simp only [List.length_append, List.length_cons, List.length_nil] at hentryDepth hbesideDepth
        omega
  · rcases List.mem_cons.mp hback with rfl | hback
    · rw [hbesidePath] at hentryPath
      have := congrArg List.length hentryPath
      simp at this
    · exact .inr (hafter beside hback)

/-- In the order of the names, and among entries of one name the entry of a path last. -/
def LateOrder (last : PathNames) (first second : DirEntry) : Prop :=
  toLex (first.name, decide (first.relativePath = last)) ≤ toLex (second.name, decide (second.relativePath = last))

instance (last : PathNames) : DecidableRel (LateOrder last) :=
  fun first second => inferInstanceAs (Decidable (toLex (first.name, decide (first.relativePath = last)) ≤
    toLex (second.name, decide (second.relativePath = last))))

instance (last : PathNames) : Std.Total (LateOrder last) := ⟨fun _ _ => le_total _ _⟩

instance (last : PathNames) : IsTrans DirEntry (LateOrder last) := ⟨fun _ _ _ => le_trans⟩

theorem lateOrder_iff {last : PathNames} {first second : DirEntry} : LateOrder last first second ↔
    first.name < second.name ∨
      first.name = second.name ∧ (first.relativePath = last → second.relativePath = last) := by
  rw [LateOrder, Prod.Lex.toLex_le_toLex, Bool.le_iff_imp]
  simp

/-- An order that `sort_unstable_by` may give. -/
def SortUnstable.late (last : PathNames) : SortUnstable where
  sort := List.insertionSort (LateOrder last)
  perm := List.perm_insertionSort _
  sorted entries := (List.pairwise_insertionSort (LateOrder last) entries).imp fun h => by
    rcases lateOrder_iff.mp h with hlt | ⟨heq, -⟩
    · exact le_of_lt hlt
    · exact le_of_eq heq

theorem late_pairwise (last : PathNames) (entries : List DirEntry) :
    ((SortUnstable.late last).sort entries).Pairwise (LateOrder last) := List.pairwise_insertionSort _ entries

theorem not_lateOrder {last : PathNames} {first second : DirEntry} (hlast : first.relativePath = last)
    (hother : second.relativePath ≠ last) (hle : second.name ≤ first.name) : ¬ LateOrder last first second := by
  intro h
  rcases lateOrder_iff.mp h with hlt | ⟨-, himp⟩
  · exact absurd hlt (not_lt.mpr hle)
  · exact hother (himp hlast)

/-- A sibling that sorts between a directory and what is in it comes there in the names, too. -/
theorem keys_of_sortsBetween {directory : PathNames} {key below : Str} {rest : Str}
    (hshort : byteLen (toStringLossy directory) < maxEntryLength) (hkey : key = toStringLossy directory ++ rest)
    (hrest : ∀ c ∈ rest.head?, c < '/') :
    cut (toStringLossy directory) ≤ key ∧ key < cut (toStringLossy directory ++ '/' :: below) := by
  obtain ⟨more, hmore⟩ := exists_cut hshort below
  rw [cut_eq_self (Nat.le_of_lt hshort), hmore, hkey]
  refine ⟨le_append _ _, append_lt_append_iff.mpr ?_⟩
  cases rest with
  | nil => exact List.nil_lt_cons _ _
  | cons c rest => exact List.cons_lt_cons_iff.mpr (.inl (hrest c rfl))

theorem separated_of_listsTree (hplain : tree.Plain)
    (h : ∀ sort, ListsTree sort tree readDenyMatcher path depth) : Separated tree readDenyMatcher path depth := by
  intro parent name child kind hchild
  have hassoc : parent ++ [name, child] = parent ++ [name] ++ [child] := by simp
  have hdirectory : tree.Visible readDenyMatcher path depth (parent ++ [name]) .directory :=
    visible_front (by simp) (List.cons_ne_nil child []) (hassoc ▸ hchild)
  have hnameKey := key_of_visible hplain hdirectory
  have hchildKey := key_of_visible hplain hchild
  have htext := @toStringLossy_append (parent ++ [name]) [child] (by simp) (by simp)
  rw [← hassoc] at htext
  rw [htext] at hchildKey
  have hpaths : parent ++ [name, child] ≠ parent ++ [name] := by simp
  have hshort : byteLen (toStringLossy (parent ++ [name])) < maxEntryLength := by
    by_contra hlong
    obtain ⟨above, entry, beside, haboveName, habovePath, hentryName, hentryPath, -, -, horder, -⟩ :=
      (h (.late (parent ++ [name]))).order (late_pairwise _) hchild hdirectory
    refine not_lateOrder habovePath (hentryPath ▸ hpaths) ?_ horder
    rw [hentryName, haboveName, hnameKey, hchildKey, cut_append (Nat.le_of_not_lt hlong)]
  refine ⟨hshort, ?_⟩
  rintro sibling siblingKind hsibling hne ⟨rest, hkey, hrest⟩
  obtain ⟨above, entry, beside, haboveName, habovePath, hentryName, hentryPath, hbesideName, hbesidePath, -, hplace⟩ :=
    (h (.late (parent ++ [sibling]))).order (late_pairwise _) hchild hsibling
  obtain ⟨hlower, hupper⟩ := keys_of_sortsBetween hshort hkey hrest
  rcases hplace hne with hbefore | hafter
  · refine not_lateOrder hbesidePath ?_ ?_ hbefore
    · simp [habovePath, Ne.symm hne]
    · rw [haboveName, hbesideName, hnameKey]
      exact hlower
  · rcases lateOrder_iff.mp hafter with hlt | ⟨heq, -⟩
    · rw [hentryName, hbesideName, hchildKey] at hlt
      exact lt_asymm hupper hlt
    · rw [hentryName, hbesideName, hchildKey] at heq
      exact absurd heq (ne_of_gt hupper)

/-! ## The result -/

/-- Whatever order the sort gives to entries of one name, the listing is a faithful tree just where nothing sorts between
a directory and what is in it. -/
theorem listsTree_iff (hplain : tree.Plain) (hdepth : 0 < depth) :
    (∀ sort, ListsTree sort tree readDenyMatcher path depth) ↔ Separated tree readDenyMatcher path depth :=
  ⟨separated_of_listsTree hplain, fun h sort => h.listsTree hplain hdepth sort⟩

def nameA : FileName := ⟨[97], by decide⟩

def nameB : FileName := ⟨[98], by decide⟩

/-- The name `a-b`. -/
def nameAB : FileName := ⟨[97, 45, 98], by decide⟩

/-- A directory `a` with a file `b` in it, next to another file. -/
def besideTree (other : FileName) (hother : other ≠ nameA) : DirTree where
  entries path :=
    if path = [] then [(nameA, .directory), (other, .file)] else if path = [nameA] then [(nameB, .file)] else []
  distinct path := by
    split
    · simp [Ne.symm hother]
    · split <;> simp

theorem besideTree_plain {other : FileName} (hother : other ≠ nameA)
    (hplain : other.bytes.length < maxEntryLength ∧ 92 ∉ other.bytes) : (besideTree other hother).Plain := by
  intro path entry hentry
  simp only [besideTree] at hentry
  split at hentry
  · rcases List.mem_cons.mp hentry with rfl | hentry
    · decide
    · obtain rfl := List.mem_singleton.mp hentry
      exact hplain
  · split at hentry
    · obtain rfl := List.mem_singleton.mp hentry
      decide
    · cases hentry

theorem besideTree_visible {other : FileName} (hother : other ≠ nameA) :
    (besideTree other hother).Visible none [] 2 [nameA, nameB] .file ∧
      (besideTree other hother).Visible none [] 2 [other] .file := by
  simp [DirTree.Visible, DirTree.Shows, besideTree, isReadDenied]

theorem nameB_ne_nameA : nameB ≠ nameA := by decide

theorem nameAB_ne_nameA : nameAB ≠ nameA := by decide

theorem visible_besideTree {other : FileName} (hother : other ≠ nameA) {relativePath : PathNames} {kind : DirEntryKind}
    (h : (besideTree other hother).Visible none [] 2 relativePath kind) :
    relativePath = [nameA] ∨ relativePath = [other] ∨ relativePath = [nameA, nameB] := by
  cases relativePath with
  | nil => exact absurd h (not_visible_nil _ _)
  | cons name rest =>
      rcases visible_cons.mp h with ⟨rfl, hshows⟩ | ⟨hshows, hbelow⟩
      · have hmem := hshows.1
        simp [besideTree] at hmem
        rcases hmem with ⟨rfl, -⟩ | ⟨rfl, -⟩ <;> simp
      · have hmem := hshows.1
        simp [besideTree] at hmem
        subst hmem
        cases rest with
        | nil => exact absurd hbelow (not_visible_nil _ _)
        | cons name rest =>
            rcases visible_cons.mp hbelow with ⟨rfl, hshows⟩ | ⟨hshows, -⟩
            · have hmem := hshows.1
              simp [besideTree] at hmem
              simp [hmem.1]
            · have hmem := hshows.1
              simp [besideTree] at hmem

theorem nested_separated : Separated (besideTree nameB nameB_ne_nameA) none [] 2 := by
  intro parent name child kind hchild
  obtain ⟨rfl, rfl⟩ : parent = [] ∧ name = nameA := by
    cases parent with
    | nil =>
        have hpath := visible_besideTree nameB_ne_nameA hchild
        simp only [List.nil_append, List.cons.injEq, List.cons_ne_nil, and_false, false_or] at hpath
        exact ⟨rfl, hpath.1⟩
    | cons first parent =>
        have hlength : (first :: parent ++ [name, child]).length ≤ 2 := by
          rcases visible_besideTree nameB_ne_nameA hchild with hpath | hpath | hpath <;> simp [hpath]
        simp at hlength
  refine ⟨by decide, ?_⟩
  rintro sibling siblingKind hsibling hne ⟨rest, hkey, -⟩
  obtain rfl : sibling = nameB := by simpa [hne] using visible_besideTree nameB_ne_nameA hsibling
  have htexts : formatEntryName [nameB] = ['b'] ∧ toStringLossy [nameA] = ['a'] := by decide
  rw [List.nil_append, List.nil_append, htexts.1, htexts.2] at hkey
  cases hkey

theorem nested_listsTree : ListsTree (.late []) (besideTree nameB nameB_ne_nameA) none [] 2 :=
  (listsTree_iff (besideTree_plain nameB_ne_nameA (by decide)) (by decide)).mpr nested_separated (.late [])

theorem clash_not_listsTree : ¬ ∃ sort, ListsTree sort (besideTree nameAB nameAB_ne_nameA) none [] 2 := by
  rintro ⟨sort, h⟩
  obtain ⟨hchild, hsibling⟩ := besideTree_visible nameAB_ne_nameA
  obtain ⟨above, entry, beside, haboveName, -, hentryName, -, hbesideName, -, -, hplace⟩ :=
    @ListsTree.order sort _ none [] 2 h _ sort.sorted [] nameA nameB nameAB _ _ hchild hsibling
  rcases hplace nameAB_ne_nameA with hbefore | hafter
  · rw [hbesideName, haboveName] at hbefore
    exact absurd hbefore (not_le.mpr (by decide))
  · rw [hentryName, hbesideName] at hafter
    exact absurd hafter (not_le.mpr (by decide))

end Codrex.ListDir
