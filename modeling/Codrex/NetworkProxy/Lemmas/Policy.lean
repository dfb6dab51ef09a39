import Codrex.Lib.Transition
import Codrex.NetworkProxy.Spec
import Mathlib.Algebra.Order.BigOperators.Group.List
import Mathlib.Algebra.Order.Group.Nat

/-!
# Globs of domain patterns
-/

namespace Codrex.NetworkProxy

open Text Fallible

variable {env : Externals} {text domain : Str}

/-! ## Lower case -/

theorem toLower_toLower (c : Char) : c.toLower.toLower = c.toLower := by
  unfold Char.toLower
  split
  · split
    · next hupper hlower =>
        simp only [ge_iff_le, UInt32.le_iff_toNat_le, UInt32.toNat_add] at hupper hlower
        have ha : 'A'.val.toNat = 65 := rfl
        have hz : 'Z'.val.toNat = 90 := rfl
        have hshift : ('a'.val - 'A'.val).toNat = 32 := rfl
        omega
    · rfl
  · rfl

/-- A text in lower case. -/
def IsLower (text : Str) : Prop := ∀ c ∈ text, c.toLower = c

theorem IsLower.eq_map (h : IsLower text) : text.map Char.toLower = text := by
  rw [List.map_congr_left h, List.map_id']

theorem isLower_toAsciiLowercase (text : Str) : IsLower (toAsciiLowercase text) := by
  intro c hc
  obtain ⟨d, -, rfl⟩ := List.mem_map.mp hc
  exact toLower_toLower d

theorem IsLower.of_sublist {part : Str} (h : IsLower text) (hpart : part.Sublist text) : IsLower part :=
  fun c hc => h c (hpart.subset hc)

/-- ASCII text in lower case. -/
def IsAsciiLower (text : Str) : Prop := ∀ c ∈ text, c.toNat < 128 ∧ c.toLower = c

theorem IsAsciiLower.lower (h : IsAsciiLower text) : IsLower text := fun c hc => (h c hc).2

theorem IsAsciiLower.dot (h : IsAsciiLower domain) : IsAsciiLower ('.' :: domain) := by
  intro c hc
  rcases List.mem_cons.mp hc with rfl | hc
  · exact ⟨by decide, rfl⟩
  · exact h c hc

theorem IsAsciiLower.below (h : IsAsciiLower domain) (count : Nat) :
    IsAsciiLower (List.replicate count 'a' ++ '.' :: domain) := by
  intro c hc
  rcases List.mem_append.mp hc with hc | hc
  · rw [List.eq_of_mem_replicate hc]
    exact ⟨by decide, rfl⟩
  · exact h.dot c hc

theorem trim_sublist (text : Str) : (trim text).Sublist text :=
  (List.rdropWhile_prefix _ _).sublist.trans (List.dropWhile_suffix _).sublist

theorem isLower_normalizeDnsHost (host : Str) : IsLower (normalizeDnsHost host) :=
  (isLower_toAsciiLowercase host).of_sublist (List.rdropWhile_prefix _ _).sublist

theorem isLower_normalizeHost (host : Str) : IsLower (normalizeHost host) := by
  simp only [normalizeHost]
  split
  · exact isLower_normalizeDnsHost _
  · split
    · exact isLower_normalizeDnsHost _
    · exact isLower_normalizeDnsHost _

theorem isLower_normalizePattern (pattern : Str) : IsLower (normalizePattern pattern) := by
  have happend : ∀ (front : Str), IsLower front → ∀ domain, IsLower (front ++ normalizeHost domain) := by
    intro front hfront domain c hc
    rcases List.mem_append.mp hc with hc | hc
    · exact hfront c hc
    · exact isLower_normalizeHost domain c hc
  simp only [normalizePattern]
  split
  · exact fun c hc => by rw [List.mem_singleton.mp hc]; rfl
  · split
    · exact happend _ (by simp [IsLower]) _
    · split
      · exact happend _ (by simp [IsLower]) _
      · exact isLower_normalizeHost _

theorem stripPrefix_sublist {front rest : Str} (h : stripPrefix front text = some rest) : rest.Sublist text := by
  rw [eq_append_of_stripPrefix h]
  exact List.sublist_append_right front rest

theorem parseDomain_sublist (domain : Str) {build : Str → DomainPattern} (hbuild : ∀ domain, (build domain).domain = domain) :
    (DomainPattern.parseDomain domain build).domain.Sublist domain := by
  unfold DomainPattern.parseDomain
  split
  · exact List.nil_sublist _
  · rw [hbuild]
    exact trim_sublist domain

theorem parse_sublist (input : Str) : (DomainPattern.parse input).domain.Sublist input := by
  simp only [DomainPattern.parse]
  split
  · exact List.nil_sublist _
  · split
    · next domain hstrip =>
        exact (parseDomain_sublist domain fun _ => rfl).trans ((stripPrefix_sublist hstrip).trans (trim_sublist _))
    · split
      · next domain hstrip =>
          exact (parseDomain_sublist domain fun _ => rfl).trans ((stripPrefix_sublist hstrip).trans (trim_sublist _))
      · exact trim_sublist _

theorem isLower_enforced (entry : Str) : IsLower (enforced entry).domain :=
  (isLower_normalizePattern entry).of_sublist (parse_sublist _)

/-! ## Sets -/

theorem expandDomainPattern_normalizePattern (entry : Str) :
    expandDomainPattern (normalizePattern entry) = (enforced entry).hostPatterns.map (·.glob) := by
  unfold expandDomainPattern enforced
  cases DomainPattern.parse (normalizePattern entry) with
  | apexAndSubdomains domain => rfl
  | subdomainsOnly domain => rfl
  | exact domain => rfl

theorem mem_addCandidate {builder next : List Str} {candidate : Str} (h : addCandidate env builder candidate = .ok next)
    (pattern : Str) : pattern ∈ next ↔ pattern ∈ builder ∨ pattern = candidate := by
  unfold addCandidate at h
  split at h
  · next hmem =>
      obtain rfl := Except.ok.inj h
      constructor
      · exact Or.inl
      · rintro (h | rfl)
        · exact h
        · exact hmem
  · split at h
    · obtain rfl := Except.ok.inj h
      rw [List.mem_append, List.mem_singleton]
    · cases h

theorem mem_foldlM_addCandidate {candidates builder next : List Str}
    (h : candidates.foldlM (addCandidate env) builder = .ok next) (pattern : Str) :
    pattern ∈ next ↔ pattern ∈ builder ∨ pattern ∈ candidates := by
  induction candidates generalizing builder with
  | nil =>
      obtain rfl := Except.ok.inj h
      simp
  | cons candidate candidates ih =>
      rw [List.foldlM_cons] at h
      obtain ⟨middle, hmiddle, hrest⟩ := bind_eq_ok h
      rw [ih hrest, mem_addCandidate hmiddle, List.mem_cons, or_assoc]

theorem mem_foldlM_addPattern {globalWildcard : GlobalWildcard} {patterns builder next : List Str}
    (h : patterns.foldlM (addPattern env globalWildcard) builder = .ok next) (pattern : Str) :
    pattern ∈ next ↔ pattern ∈ builder ∨
      ∃ entry ∈ patterns, ∃ hostPattern ∈ (enforced entry).hostPatterns, hostPattern.glob = pattern := by
  induction patterns generalizing builder with
  | nil =>
      obtain rfl := Except.ok.inj h
      simp
  | cons entry patterns ih =>
      rw [List.foldlM_cons] at h
      obtain ⟨middle, hmiddle, hrest⟩ := bind_eq_ok h
      unfold addPattern at hmiddle
      obtain ⟨-, hmiddle⟩ := guard_eq_ok hmiddle
      rw [expandDomainPattern_normalizePattern] at hmiddle
      rw [ih hrest, mem_foldlM_addCandidate hmiddle, List.mem_map, or_assoc]
      simp only [List.mem_cons, exists_eq_or_imp]

/-- The patterns of a compiled set. -/
theorem mem_patterns {entries : List Str} {set : GlobSet} (h : compileAllowlistGlobset env entries = .ok set)
    (pattern : Str) :
    pattern ∈ set.patterns ↔
      ∃ entry ∈ entries, ∃ hostPattern ∈ (enforced entry).hostPatterns, hostPattern.glob = pattern := by
  obtain ⟨builder, hbuilder, hset⟩ := bind_eq_ok h
  split at hset
  · obtain rfl := Except.ok.inj hset
    rw [mem_foldlM_addPattern hbuilder]
    simp
  · cases hset

theorem isMatch_compile {entries : List Str} {set : GlobSet} (h : compileAllowlistGlobset env entries = .ok set)
    (text : Str) :
    set.isMatch env text = true ↔
      ∃ entry ∈ entries, ∃ pattern ∈ (enforced entry).hostPatterns, env.globMatches pattern.glob text = true := by
  rw [GlobSet.isMatch, List.any_eq_true]
  constructor
  · rintro ⟨glob, hglob, hmatch⟩
    obtain ⟨entry, hentry, pattern, hpattern, rfl⟩ := (mem_patterns h glob).mp hglob
    exact ⟨entry, hentry, pattern, hpattern, hmatch⟩
  · rintro ⟨entry, hentry, pattern, hpattern, hmatch⟩
    exact ⟨pattern.glob, (mem_patterns h _).mpr ⟨entry, hentry, pattern, hpattern, rfl⟩, hmatch⟩

/-! ## Covered patterns -/

theorem globToken_ne_any {c : Char} (h : c ≠ '*') : globToken c ≠ .any := by
  unfold globToken
  rw [if_neg h]
  split
  · exact fun h => by cases h
  · exact fun h => by cases h

theorem PlainGlob.append {first second : Str} (hfirst : PlainGlob first) (hsecond : PlainGlob second) :
    PlainGlob (first ++ second) := by
  intro c hc
  rcases List.mem_append.mp hc with hc | hc
  · exact hfirst c hc
  · exact hsecond c hc

theorem PlainGlob.below (h : PlainGlob domain) : PlainGlob (HostPattern.below domain).glob := by
  have hwild : PlainGlob "?*.".toList := by decide
  exact hwild.append h

theorem PlainGlob.of_below {label : Str} (h : PlainGlob (label ++ '.' :: domain)) : PlainGlob domain :=
  fun c hc => h c (List.mem_append_right _ (List.mem_cons_of_mem _ hc))

/-- What stands in front of a domain matches a text that is not empty, so the domain is matched below itself. -/
theorem globMatches_below (hglobs : env.GlobsDocumented) {front : Str} (hfront : ∃ c ∈ front, c ≠ '*')
    (hplain : PlainGlob (front ++ '.' :: domain)) (h : env.globMatches (front ++ '.' :: domain) text = true) :
    env.globMatches (HostPattern.below domain).glob text = true := by
  obtain ⟨fold, -, hmatches⟩ := hglobs
  rw [hmatches _ _ hplain, List.map_append, Glob.isMatch_append] at h
  obtain ⟨first, rest, rfl, hfirst, hrest⟩ := h
  obtain ⟨c, hc, hstar⟩ := hfront
  have hne := Glob.ne_nil_of_isMatch ⟨globToken c, List.mem_map_of_mem hc, globToken_ne_any hstar⟩ hfirst
  have hglob : (HostPattern.below domain).glob = ['?', '*'] ++ '.' :: domain := rfl
  rw [hmatches _ _ hplain.of_below.below, hglob, List.map_append, Glob.isMatch_append]
  exact ⟨first, rest, rfl, Glob.isMatch_one_any.mpr hne, hrest⟩

theorem HostPattern.Covers.globMatches (hglobs : env.GlobsDocumented) {managed pattern : HostPattern}
    (h : managed.Covers pattern) (hmatch : env.globMatches pattern.glob text = true) :
    env.globMatches managed.glob text = true := by
  cases h with
  | same => exact hmatch
  | host label domain hplain hlabel => exact globMatches_below hglobs hlabel hplain hmatch
  | below label domain hplain =>
      have hglob : (HostPattern.below (label ++ '.' :: domain)).glob = ("?*.".toList ++ label) ++ '.' :: domain :=
        (List.append_assoc _ _ _).symm
      have hwhole := hplain.below
      rw [hglob] at hmatch hwhole
      exact globMatches_below hglobs ⟨'?', by simp, by decide⟩ hwhole hmatch

/-! ## Patterns without wildcards -/

theorem IsLiteral.plain (h : IsLiteral domain) : PlainGlob domain :=
  fun c hc hspecial => (h c hc).2 (List.mem_append_right "*?".toList hspecial)

theorem IsLiteral.not_mem (h : IsLiteral domain) {c : Char} (hc : c ∈ "*?[]\x7b\x7d\\/".toList) : c ∉ domain :=
  fun hmem => (h c hmem).2 hc

theorem IsLiteral.dot (h : IsLiteral domain) : IsLiteral ('.' :: domain) := by
  intro c hc
  rcases List.mem_cons.mp hc with rfl | hc
  · exact ⟨by decide, by decide⟩
  · exact h c hc

theorem IsLiteral.map_globToken (h : IsLiteral domain) : domain.map globToken = domain.map .lit := by
  apply List.map_congr_left
  intro c hc
  have hnotStar : c ≠ '*' := fun heq => h.not_mem (by decide) (heq ▸ hc)
  have hnotQuestion : c ≠ '?' := fun heq => h.not_mem (by decide) (heq ▸ hc)
  rw [globToken, if_neg hnotStar, if_neg hnotQuestion]

/-- Folding tells ASCII texts in lower case apart. -/
theorem map_fold_eq_iff {fold : Char → Char}
    (hfold : ∀ c d : Char, c.toNat < 128 → d.toNat < 128 → (fold c = fold d ↔ c.toLower = d.toLower)) {first second : Str}
    (hfirst : IsAsciiLower first) (hsecond : IsAsciiLower second) :
    first.map fold = second.map fold ↔ first = second := by
  constructor
  · intro h
    refine List.ext_getElem (by simpa using congrArg List.length h) fun i hi hi' => ?_
    have hat := List.getElem_of_eq h (by simpa using hi)
    rw [List.getElem_map, List.getElem_map] at hat
    obtain ⟨hascii, hlower⟩ := hfirst _ (List.getElem_mem hi)
    obtain ⟨hascii', hlower'⟩ := hsecond _ (List.getElem_mem hi')
    rw [← hlower, ← hlower']
    exact (hfold _ _ hascii hascii').mp hat
  · rintro rfl
    rfl

theorem globMatches_host (hglobs : env.GlobsDocumented) (hliteral : IsLiteral domain) (hdomain : IsAsciiLower domain)
    (htext : IsAsciiLower text) : env.globMatches domain text = true ↔ domain = text := by
  obtain ⟨fold, hfold, hmatches⟩ := hglobs
  rw [hmatches _ _ hliteral.plain, hliteral.map_globToken, Glob.isMatch_lits, map_fold_eq_iff hfold hdomain htext]

theorem globMatches_below_iff (hglobs : env.GlobsDocumented) (hliteral : IsLiteral domain)
    (hdomain : IsAsciiLower domain) (htext : IsAsciiLower text) :
    env.globMatches (HostPattern.below domain).glob text = true ↔
      ∃ front, front ≠ [] ∧ text = front ++ '.' :: domain := by
  have hglob : (HostPattern.below domain).glob = ['?', '*'] ++ '.' :: domain := rfl
  obtain ⟨fold, hfold, hmatches⟩ := hglobs
  rw [hmatches _ _ hliteral.plain.below, hglob, List.map_append, Glob.isMatch_append, hliteral.dot.map_globToken]
  constructor
  · rintro ⟨front, rest, rfl, hfront, hrest⟩
    have hrestLower : IsAsciiLower rest := fun c hc => htext c (List.mem_append_right _ hc)
    have heq := (map_fold_eq_iff hfold hdomain.dot hrestLower).mp (Glob.isMatch_lits.mp hrest)
    exact ⟨front, Glob.isMatch_one_any.mp hfront, by rw [heq]⟩
  · rintro ⟨front, hfront, rfl⟩
    exact ⟨front, '.' :: domain, rfl, Glob.isMatch_one_any.mpr hfront, Glob.isMatch_lits.mpr rfl⟩

/-- Every text of this kind is a host: it can be written in brackets. -/
theorem exists_host (hlower : IsLower text) (hne : text ≠ []) (hbracket : ']' ∉ text) (hlast :
    text.getLast? ≠ some '.') : ∃ input host, Host.parse input = some host ∧ host.text = text := by
  have hnormal : normalizeHost ('[' :: text ++ [']']) = text := by
    have htrim : trim ('[' :: text ++ [']']) = '[' :: text ++ [']'] := trim_eq_self (by decide) (by decide)
    have hinner : ((('[' :: text ++ [']']).drop 1).takeWhile fun c => decide (c ≠ ']')) = text := by
      rw [List.cons_append, List.drop_succ_cons, List.drop_zero, List.takeWhile_append_of_pos]
      · simp
      · intro c hc
        simpa using fun h : c = ']' => hbracket (h ▸ hc)
    simp only [normalizeHost, htrim]
    rw [if_pos (by simp), hinner, normalizeDnsHost, toAsciiLowercase, hlower.eq_map, trimEndDots,
      List.rdropWhile_eq_self_iff]
    intro hne
    rw [List.getLast?_eq_some_getLast hne] at hlast
    simpa using hlast
  have hparsed : normalizeHost ('[' :: text ++ [']']) ≠ [] := by
    rw [hnormal]
    exact hne
  refine ⟨'[' :: text ++ [']'], ⟨_, hparsed⟩, ?_, hnormal⟩
  rw [Host.parse, dif_pos hparsed]

theorem covers_host (hglobs : env.GlobsDocumented) {managed : HostPattern} {managedDomain : Str}
    (hliteral : IsLiteral domain) (hdomain : IsAsciiLower domain)
    (hmanaged : managed = .host managedDomain ∨ managed = .below managedDomain)
    (hmanagedLiteral : IsLiteral managedDomain) (hmanagedLower : IsAsciiLower managedDomain)
    (h : env.globMatches managed.glob domain = true) : managed.Covers (.host domain) := by
  rcases hmanaged with rfl | rfl
  · obtain rfl := (globMatches_host hglobs hmanagedLiteral hmanagedLower hdomain).mp h
    exact .same _
  · obtain ⟨front, hfront, rfl⟩ := (globMatches_below_iff hglobs hmanagedLiteral hmanagedLower hdomain).mp h
    obtain ⟨c, rest, rfl⟩ := List.exists_cons_of_ne_nil hfront
    refine .host _ _ hliteral.plain ⟨c, List.mem_cons_self, ?_⟩
    rintro rfl
    have hstar : '*' ∈ "*?[]{}\\/".toList := by decide
    exact hliteral.not_mem hstar (by simp)

/-- A host with a long first label is matched by what covers all hosts below the domain. -/
theorem covers_below (hglobs : env.GlobsDocumented) {managed : HostPattern} {managedDomain : Str} {count : Nat}
    (hliteral : IsLiteral domain) (hdomain : IsAsciiLower domain)
    (hmanaged : managed = .host managedDomain ∨ managed = .below managedDomain)
    (hmanagedLiteral : IsLiteral managedDomain) (hmanagedLower : IsAsciiLower managedDomain)
    (hcount : managedDomain.length < count)
    (h : env.globMatches managed.glob (List.replicate count 'a' ++ '.' :: domain) = true) :
    managed.Covers (.below domain) := by
  have htext := hdomain.below count
  rcases hmanaged with rfl | rfl
  · have heq := (globMatches_host hglobs hmanagedLiteral hmanagedLower htext).mp h
    have hlength := congrArg List.length heq
    rw [List.length_append, List.length_replicate] at hlength
    omega
  · obtain ⟨front, hfront, heq⟩ := (globMatches_below_iff hglobs hmanagedLiteral hmanagedLower htext).mp h
    -- The dot before the managed domain is the one behind the label, or stands in the domain.
    rcases List.append_eq_append_iff.mp heq with ⟨tail, rfl, htail⟩ | ⟨tail, hlabel, htail⟩
    · cases tail with
      | nil =>
          obtain rfl := (List.cons.inj htail).2
          exact .same _
      | cons c tail =>
          obtain rfl := (List.cons.inj htail).2
          exact .below _ _ hliteral.plain
    · cases tail with
      | nil =>
          obtain rfl := (List.cons.inj htail).2
          exact .same _
      | cons c tail =>
          obtain ⟨rfl, -⟩ := List.cons.inj htail
          have hmem : '.' ∈ List.replicate count 'a' := by rw [hlabel]; simp
          exact absurd (List.eq_of_mem_replicate hmem) (by decide)

theorem mem_hostPatterns {pattern : DomainPattern} {hostPattern : HostPattern} (h : hostPattern ∈ pattern.hostPatterns) :
    hostPattern = .host pattern.domain ∨ hostPattern = .below pattern.domain := by
  cases pattern with
  | apexAndSubdomains domain =>
      rcases List.mem_cons.mp h with rfl | h
      · exact Or.inl rfl
      · exact Or.inr (List.mem_singleton.mp h)
  | subdomainsOnly domain => exact Or.inr (List.mem_singleton.mp h)
  | exact domain => exact Or.inl (List.mem_singleton.mp h)

/-! ## Contained lists -/

theorem contained_of_covered (hglobs : env.GlobsDocumented) {managed entries : List Str} {set managedSet : GlobSet}
    (hset : compileAllowlistGlobset env entries = .ok set)
    (hmanagedSet : compileAllowlistGlobset env managed = .ok managedSet) (h : Covered managed entries) :
    Contained env set managedSet := by
  intro input host hhost hmatch
  obtain ⟨entry, hentry, pattern, hpattern, hglob⟩ := (isMatch_compile hset _).mp hmatch
  obtain ⟨managedEntry, hmem, managedPattern, hmanagedPattern, hcovers⟩ := h entry hentry pattern hpattern
  exact (isMatch_compile hmanagedSet _).mpr
    ⟨managedEntry, hmem, managedPattern, hmanagedPattern, hcovers.globMatches hglobs hglob⟩

theorem isAsciiLower_enforced {entry : Str} (h : IsLiteral (enforced entry).domain) :
    IsAsciiLower (enforced entry).domain :=
  fun c hc => ⟨(h c hc).1, isLower_enforced entry c hc⟩

theorem covered_of_contained (hglobs : env.GlobsDocumented) {managed entries : List Str} {set managedSet : GlobSet}
    (hset : compileAllowlistGlobset env entries = .ok set)
    (hmanagedSet : compileAllowlistGlobset env managed = .ok managedSet)
    (hentries : ∀ entry ∈ entries, IsDomain entry) (hmanaged : ∀ entry ∈ managed, IsLiteral (enforced entry).domain)
    (h : Contained env set managedSet) : Covered managed entries := by
  intro entry hentry pattern hpattern
  have hdomain := hentries entry hentry
  have hliteral := hdomain.literal
  have hlower := isAsciiLower_enforced hliteral
  -- A host that the entry lets through is let through by a managed entry.
  have hfind : ∀ text, IsAsciiLower text → text ≠ [] → ']' ∉ text → text.getLast? ≠ some '.' →
      env.globMatches pattern.glob text = true → ∃ managedEntry ∈ managed,
        ∃ managedPattern ∈ (enforced managedEntry).hostPatterns, env.globMatches managedPattern.glob text = true := by
    intro text htext hne hbracket hlast hmatch
    obtain ⟨input, host, hhost, rfl⟩ := exists_host htext.lower hne hbracket hlast
    exact (isMatch_compile hmanagedSet _).mp
      (h input host hhost ((isMatch_compile hset _).mpr ⟨entry, hentry, pattern, hpattern, hmatch⟩))
  have hbracket : ']' ∉ (enforced entry).domain := hliteral.not_mem (by decide)
  rcases mem_hostPatterns hpattern with rfl | rfl
  · obtain ⟨managedEntry, hmem, managedPattern, hmanagedPattern, hglob⟩ :=
      hfind _ hlower hdomain.ne_nil hbracket hdomain.last ((globMatches_host hglobs hliteral hlower hlower).mpr rfl)
    have hmanagedLiteral := hmanaged managedEntry hmem
    exact ⟨managedEntry, hmem, managedPattern, hmanagedPattern,
      covers_host hglobs hliteral hlower (mem_hostPatterns hmanagedPattern) hmanagedLiteral
        (isAsciiLower_enforced hmanagedLiteral) hglob⟩
  · let count := (managed.map fun managedEntry => (enforced managedEntry).domain.length).sum + 1
    let text := List.replicate count 'a' ++ '.' :: (enforced entry).domain
    have htext : IsAsciiLower text := hlower.below count
    have hlast : text.getLast? ≠ some '.' := by
      have hcons : '.' :: (enforced entry).domain ≠ [] := List.cons_ne_nil _ _
      rw [List.getLast?_append_of_ne_nil _ hcons, List.getLast?_cons_of_ne_nil hdomain.ne_nil]
      exact hdomain.last
    obtain ⟨managedEntry, hmem, managedPattern, hmanagedPattern, hglob⟩ :=
      hfind text htext (by simp [text]) (by simp [text, hbracket]) hlast
        ((globMatches_below_iff hglobs hliteral hlower htext).mpr ⟨List.replicate count 'a', by simp [count], rfl⟩)
    have hmanagedLiteral := hmanaged managedEntry hmem
    have hcount : (enforced managedEntry).domain.length < count :=
      Nat.lt_succ_of_le (List.le_sum_of_mem (List.mem_map_of_mem hmem))
    exact ⟨managedEntry, hmem, managedPattern, hmanagedPattern,
      covers_below hglobs hliteral hlower (mem_hostPatterns hmanagedPattern) hmanagedLiteral
        (isAsciiLower_enforced hmanagedLiteral) hcount hglob⟩

end Codrex.NetworkProxy

/-!
## What the constraint check lets through
-/

namespace Codrex.NetworkProxy

open Text Fallible

variable {env : Externals}

theorem whenSome_ok {α : Type} {value : Option α} {a : α} {check : α → Except NetworkProxyConstraintError Unit}
    (h : whenSome value check = .ok ()) (hvalue : value = some a) : check a = .ok () := by
  rw [hvalue] at h
  exact h

/-- Every entry of an accepted config is allowed by a managed one, as the check reads them. -/
theorem allows_of_accepted {config : NetworkProxyConfig} {constraints : NetworkProxyConstraints} {managed : List Str}
    (hmanaged : constraints.allowedDomains = some managed) (hexpansion : constraints.allowlistExpansionEnabled = none)
    (h : validatePolicyAgainstConstraints env config constraints = .ok ()) {entry : Str}
    (hentry : entry ∈ config.network.allowedDomains.getD []) :
    ∃ managedEntry ∈ managed, (DomainPattern.parseForConstraints env managedEntry).allows
      (DomainPattern.parseForConstraints env entry) = true := by
  unfold validatePolicyAgainstConstraints at h
  obtain ⟨-, -, h⟩ := bind_eq_ok h
  obtain ⟨-, -, h⟩ := bind_eq_ok h
  obtain ⟨-, -, h⟩ := bind_eq_ok h
  obtain ⟨-, -, h⟩ := bind_eq_ok h
  obtain ⟨-, -, h⟩ := bind_eq_ok h
  obtain ⟨-, -, h⟩ := bind_eq_ok h
  obtain ⟨-, -, h⟩ := bind_eq_ok h
  obtain ⟨⟨⟩, hallowed, -⟩ := bind_eq_ok h
  have hcheck := whenSome_ok hallowed hmanaged
  obtain ⟨-, -, hdomains⟩ := bind_eq_ok hcheck
  rw [hexpansion] at hdomains
  simp only [validateAllowedDomains] at hdomains
  split at hdomains
  · next hinvalid =>
      have hallows := List.filter_eq_nil_iff.mp hinvalid entry hentry
      simp only [isAllowedByManaged, Bool.not_eq_true', Bool.not_eq_false, List.any_map, List.any_eq_true] at hallows
      exact hallows
  · cases hdomains

/-! ## Where both readings agree -/

theorem isSubdomainOrEqual_iff {child parent : Str} :
    isSubdomainOrEqual child parent = true ↔
      normalizeDomain child = normalizeDomain parent ∨
        ∃ label, normalizeDomain child = label ++ '.' :: normalizeDomain parent := by
  unfold isSubdomainOrEqual
  rw [Bool.or_eq_true, decide_eq_true_iff, List.isSuffixOf_iff_suffix]
  constructor
  · rintro (h | ⟨label, h⟩)
    · exact Or.inl h
    · exact Or.inr ⟨label, h.symm⟩
  · rintro (h | ⟨label, h⟩)
    · exact Or.inl h
    · exact Or.inr ⟨label, h.symm⟩

theorem label_of_isStrictSubdomain {child parent : Str} (h : isStrictSubdomain child parent = true) :
    ∃ label, normalizeDomain child = label ++ '.' :: normalizeDomain parent := by
  obtain ⟨label, hlabel⟩ := List.isSuffixOf_iff_suffix.mp (Bool.and_eq_true_iff.mp h).2
  exact ⟨label, hlabel.symm⟩

theorem below_covers_below {domain parent : Str} (h : isSubdomainOrEqual domain parent = true)
    (hplain : PlainGlob (normalizeDomain domain)) :
    (HostPattern.below (normalizeDomain parent)).Covers (.below (normalizeDomain domain)) := by
  rcases isSubdomainOrEqual_iff.mp h with heq | ⟨label, hdomain⟩
  · rw [heq]
    exact .same _
  · rw [hdomain] at hplain ⊢
    exact .below label _ hplain

/-- What the check allows is covered, for the domains it compares. -/
theorem covers_of_allows {managed candidate : DomainPattern} (h : managed.allows candidate = true)
    (hplain : PlainGlob candidate.normalized.domain)
    (hlabel : ∀ label rest, candidate.normalized.domain = label ++ '.' :: rest → ∃ c ∈ label, c ≠ '*')
    {pattern : HostPattern} (hpattern : pattern ∈ candidate.normalized.hostPatterns) :
    ∃ managedPattern ∈ managed.normalized.hostPatterns, managedPattern.Covers pattern := by
  have hhost : ∀ {domain parent : Str}, (∃ label, normalizeDomain domain = label ++ '.' :: normalizeDomain parent) →
      candidate.normalized.domain = normalizeDomain domain →
        (HostPattern.below (normalizeDomain parent)).Covers (.host (normalizeDomain domain)) := by
    rintro domain parent ⟨label, hdomain⟩ hcandidate
    rw [hcandidate, hdomain] at hplain
    rw [hdomain]
    exact .host label _ hplain (hlabel label _ (hcandidate.trans hdomain))
  cases managed with
  | exact parent =>
      cases candidate with
      | exact domain =>
          obtain rfl := List.mem_singleton.mp hpattern
          refine ⟨.host (normalizeDomain parent), List.mem_singleton_self _, ?_⟩
          rw [← of_decide_eq_true h]
          exact .same _
      | subdomainsOnly domain => cases h
      | apexAndSubdomains domain => cases h
  | subdomainsOnly parent =>
      refine ⟨.below (normalizeDomain parent), List.mem_singleton_self _, ?_⟩
      cases candidate with
      | exact domain =>
          obtain rfl := List.mem_singleton.mp hpattern
          exact hhost (label_of_isStrictSubdomain h) rfl
      | subdomainsOnly domain =>
          obtain rfl := List.mem_singleton.mp hpattern
          exact below_covers_below h hplain
      | apexAndSubdomains domain =>
          rcases List.mem_cons.mp hpattern with rfl | hpattern
          · exact hhost (label_of_isStrictSubdomain h) rfl
          · obtain rfl := List.mem_singleton.mp hpattern
            exact below_covers_below (isSubdomainOrEqual_iff.mpr (Or.inr (label_of_isStrictSubdomain h))) hplain
  | apexAndSubdomains parent =>
      have hapex : ∀ {domain : Str}, isSubdomainOrEqual domain parent = true →
          candidate.normalized.domain = normalizeDomain domain →
          ∃ managedPattern ∈ (DomainPattern.apexAndSubdomains parent).normalized.hostPatterns,
            managedPattern.Covers (.host (normalizeDomain domain)) := by
        intro domain hsub hcandidate
        rcases isSubdomainOrEqual_iff.mp hsub with heq | hlabels
        · exact ⟨.host (normalizeDomain parent), List.mem_cons_self, by rw [heq]; exact .same _⟩
        · exact ⟨.below (normalizeDomain parent), by simp [DomainPattern.normalized, DomainPattern.hostPatterns],
            hhost hlabels hcandidate⟩
      have hmem : HostPattern.below (normalizeDomain parent) ∈
          (DomainPattern.apexAndSubdomains parent).normalized.hostPatterns := by
        simp [DomainPattern.normalized, DomainPattern.hostPatterns]
      cases candidate with
      | exact domain =>
          obtain rfl := List.mem_singleton.mp hpattern
          exact hapex h rfl
      | subdomainsOnly domain =>
          obtain rfl := List.mem_singleton.mp hpattern
          exact ⟨_, hmem, below_covers_below h hplain⟩
      | apexAndSubdomains domain =>
          rcases List.mem_cons.mp hpattern with rfl | hpattern
          · exact hapex h rfl
          · obtain rfl := List.mem_singleton.mp hpattern
            exact ⟨_, hmem, below_covers_below h hplain⟩

end Codrex.NetworkProxy
