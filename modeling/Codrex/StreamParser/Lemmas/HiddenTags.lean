import Codrex.StreamParser.Lemmas.Utf8Stream

/-!
# Several hidden tags
-/

namespace Codrex.StreamParser

open Text TagScan InlineHiddenTagParser

variable {τ : Type}

/-! ## The next open tag -/

theorem OpenMatch.before_total (a b : OpenMatch) : a.before b = true ∨ b.before a = true := by
  simp only [OpenMatch.before, Bool.or_eq_true, Bool.and_eq_true, decide_eq_true_eq, beq_iff_eq]
  omega

theorem OpenMatch.before_trans {a b c : OpenMatch} (hab : a.before b = true) (hbc : b.before c = true) :
    a.before c = true := by
  simp only [OpenMatch.before, Bool.or_eq_true, Bool.and_eq_true, decide_eq_true_eq, beq_iff_eq] at hab hbc ⊢
  omega

theorem foldl_before (first : OpenMatch) (rest : List OpenMatch) :
    let best := rest.foldl (fun best candidate => if best.before candidate then best else candidate) first
    best ∈ first :: rest ∧ ∀ candidate ∈ first :: rest, best.before candidate = true := by
  induction rest generalizing first with
  | nil =>
      refine ⟨List.mem_cons_self, fun candidate hcandidate => ?_⟩
      rw [List.mem_singleton.mp hcandidate]
      exact (OpenMatch.before_total first first).elim id id
  | cons second rest ih =>
      rw [List.foldl_cons]
      obtain ⟨hmem, hbefore⟩ := ih (if first.before second then first else second)
      have hhead := hbefore _ List.mem_cons_self
      by_cases h : first.before second = true
      · rw [if_pos h] at hmem hhead hbefore ⊢
        refine ⟨?_, fun candidate hcandidate => ?_⟩
        · rcases List.mem_cons.mp hmem with heq | hlater
          · rw [heq]
            exact List.mem_cons_self
          · exact List.mem_cons_of_mem _ (List.mem_cons_of_mem _ hlater)
        · rcases List.mem_cons.mp hcandidate with rfl | hrest
          · exact hhead
          · rcases List.mem_cons.mp hrest with rfl | hlater
            · exact OpenMatch.before_trans hhead h
            · exact hbefore candidate (List.mem_cons_of_mem _ hlater)
      · have hsecond : second.before first = true := (OpenMatch.before_total second first).resolve_right h
        rw [if_neg h] at hmem hhead hbefore ⊢
        refine ⟨List.mem_cons_of_mem _ hmem, fun candidate hcandidate => ?_⟩
        rcases List.mem_cons.mp hcandidate with rfl | hrest
        · exact OpenMatch.before_trans hhead hsecond
        · exact hbefore candidate hrest

/-- Of two tags at one place the longer one has more bytes. -/
theorem length_le_of_byteLen_le {s tag other : Str} (htag : tag <+: s) (hother : other <+: s)
    (h : byteLen other ≤ byteLen tag) : other.length ≤ tag.length := by
  by_contra hlong
  obtain ⟨rest, rfl⟩ := List.prefix_of_prefix_length_le htag hother (by omega)
  rw [byteLen_append] at h
  have hnil : rest = [] := byteLen_eq_zero.mp (by omega)
  rw [hnil, List.append_nil] at hlong
  exact hlong (Nat.le_refl _)

/-- The places where the open tags are found first. -/
def openMatches (specs : List (InlineTagSpec τ)) (pending : Str) : List OpenMatch :=
  specs.zipIdx.filterMap fun (spec, idx) =>
    (find spec.openTag pending).map fun pos => OpenMatch.mk pos (byteLen spec.openTag) idx

theorem mem_openMatches {specs : List (InlineTagSpec τ)} {pending : Str} {found : OpenMatch} :
    found ∈ openMatches specs pending ↔ ∃ spec, specs[found.idx]? = some spec ∧
      find spec.openTag pending = some found.pos ∧ byteLen spec.openTag = found.len := by
  simp only [openMatches, List.mem_filterMap, Prod.exists, List.mem_zipIdx_iff_getElem?, Option.map_eq_some_iff]
  constructor
  · rintro ⟨spec, idx, hspec, pos, hpos, rfl⟩
    exact ⟨spec, hspec, hpos, rfl⟩
  · rintro ⟨spec, hspec, hpos, hlen⟩
    exact ⟨spec, found.idx, hspec, found.pos, hpos, by rw [hlen]⟩

theorem best_of_before {specs : List (InlineTagSpec τ)} {pending : Str} {best : OpenMatch}
    (hmem : best ∈ openMatches specs pending)
    (hbefore : ∀ candidate ∈ openMatches specs pending, best.before candidate = true) :
    ∃ spec, specs[best.idx]? = some spec ∧
      Best (specs.map (·.openTag)) pending best.pos best.idx spec.openTag := by
  obtain ⟨spec, hspec, hpos, hlen⟩ := mem_openMatches.mp hmem
  have hle : best.pos ≤ pending.length := by
    have := length_le_of_find hpos
    by_contra hlong
    rw [Nat.sub_eq_zero_of_le (by omega), Nat.le_zero, List.length_eq_zero_iff] at this
    rw [this, find_eq_zero List.nil_prefix, Option.some.injEq] at hpos
    omega
  have hcandidate {other : InlineTagSpec τ} {idx j : Nat} (hother : specs[idx]? = some other) (hj : j ≤ best.pos)
      (hstarts : other.openTag <+: pending.drop j) :
      ∃ i ≤ j, best.before ⟨i, byteLen other.openTag, idx⟩ = true := by
    obtain ⟨i, hi, hfind⟩ := exists_find_le (by omega) hstarts
    exact ⟨i, hi, hbefore _ (mem_openMatches.mpr ⟨other, hother, hfind, rfl⟩)⟩
  refine ⟨spec, hspec, by rw [List.getElem?_map, hspec, Option.map_some], prefix_of_find hpos, ?_, ?_, ?_⟩
  · intro tag htag j hj hstarts
    obtain ⟨other, hother, rfl⟩ := List.mem_map.mp htag
    obtain ⟨idx, hidx⟩ := List.getElem?_of_mem hother
    obtain ⟨i, hi, hbest⟩ := hcandidate hidx (Nat.le_of_lt hj) hstarts
    simp only [OpenMatch.before, Bool.or_eq_true, Bool.and_eq_true, decide_eq_true_eq, beq_iff_eq] at hbest
    omega
  · intro tag htag hstarts
    obtain ⟨other, hother, rfl⟩ := List.mem_map.mp htag
    obtain ⟨idx, hidx⟩ := List.getElem?_of_mem hother
    obtain ⟨i, hi, hbest⟩ := hcandidate hidx (Nat.le_refl _) hstarts
    simp only [OpenMatch.before, Bool.or_eq_true, Bool.and_eq_true, decide_eq_true_eq, beq_iff_eq] at hbest
    exact length_le_of_byteLen_le (prefix_of_find hpos) hstarts (by omega)
  · intro j hj hsame
    obtain ⟨other, hother, htag⟩ := Option.map_eq_some_iff.mp ((List.getElem?_map ..).symm.trans hsame)
    obtain ⟨i, hi, hbest⟩ := hcandidate hother (Nat.le_refl _) (htag ▸ prefix_of_find hpos)
    rw [htag] at hbest
    simp only [OpenMatch.before, Bool.or_eq_true, Bool.and_eq_true, decide_eq_true_eq, beq_iff_eq] at hbest
    omega

theorem findNextOpen_cases (parser : InlineHiddenTagParser τ) :
    (∃ pos idx spec, parser.findNextOpen = some (pos, idx) ∧ parser.specs[idx]? = some spec ∧
        Best (parser.specs.map (·.openTag)) parser.pending pos idx spec.openTag) ∨
      (parser.findNextOpen = none ∧ ∀ spec ∈ parser.specs, find spec.openTag parser.pending = none) := by
  cases h : openMatches parser.specs parser.pending with
  | nil =>
      have hfound : parser.findNextOpen = none := by
        simp only [InlineHiddenTagParser.findNextOpen]
        split
        · rfl
        · next hcons => cases h.symm.trans hcons
      refine .inr ⟨hfound, fun spec hspec => ?_⟩
      obtain ⟨idx, hidx⟩ := List.getElem?_of_mem hspec
      cases hfind : find spec.openTag parser.pending with
      | none => rfl
      | some pos =>
          have hmem : (⟨pos, byteLen spec.openTag, idx⟩ : OpenMatch) ∈ openMatches parser.specs parser.pending :=
            mem_openMatches.mpr ⟨spec, hidx, hfind, rfl⟩
          rw [h] at hmem
          cases hmem
  | cons first rest =>
      let best := rest.foldl (fun best candidate => if best.before candidate then best else candidate) first
      have hfound : parser.findNextOpen = some (best.pos, best.idx) := by
        simp only [InlineHiddenTagParser.findNextOpen]
        split
        · next hnil => cases h.symm.trans hnil
        · next hcons =>
            obtain ⟨rfl, rfl⟩ := List.cons.inj (h.symm.trans hcons)
            rfl
      obtain ⟨hmem, hbefore⟩ := foldl_before first rest
      rw [← h] at hmem hbefore
      obtain ⟨spec, hspec, hbest⟩ := best_of_before hmem hbefore
      exact .inl ⟨_, _, spec, hfound, hspec, hbest⟩

theorem keep_le_maxOpenPrefixSuffixLen (parser : InlineHiddenTagParser τ) {spec : InlineTagSpec τ}
    (h : spec ∈ parser.specs) :
    longestSuffixPrefixLen parser.pending spec.openTag ≤ parser.maxOpenPrefixSuffixLen := by
  have hmem : longestSuffixPrefixLen parser.pending spec.openTag ∈
      parser.specs.map fun spec => longestSuffixPrefixLen parser.pending spec.openTag := List.mem_map_of_mem h
  rw [maxOpenPrefixSuffixLen]
  cases hmax : (parser.specs.map fun spec => longestSuffixPrefixLen parser.pending spec.openTag).max? with
  | none =>
      rw [List.max?_eq_none_iff.mp hmax] at hmem
      cases hmem
  | some max => exact (List.max?_eq_some_iff.mp hmax).2 _ hmem

/-! ## Text in front -/

/-- What is seen is the text up to some point. -/
structure Sight (sees : Str → Str → Prop) : Prop where
  starts : ∀ {seen text}, sees seen text → seen <+: text
  append : ∀ front {seen text}, sees seen text → sees (front ++ seen) (front ++ text)

theorem sight_starts : Sight (· <+: ·) := ⟨fun h => h, fun front _ _ h => (List.prefix_append_right_inj front).mpr h⟩

theorem sight_whole : Sight (· = ·) := by
  constructor
  · rintro seen _ rfl
    exact List.prefix_rfl
  · rintro front seen _ rfl
    rfl

section Front

variable {specs : List (InlineTagSpec τ)} {sees : Str → Str → Prop} {front text : Str}
  {out : StreamTextChunk (ExtractedInlineTag τ)}

theorem find_append_eq_none {tag : Str} (hfront : ∀ j < front.length, ¬ tag <+: (front ++ text).drop j)
    (h : find tag text = none) : find tag (front ++ text) = none := by
  rw [find_append fun j hj => by rw [← List.drop_append_of_le_length (by omega)]; exact hfront j hj, h]
  rfl

theorem Takes.append_visible (hsight : Sight sees)
    (hfront : ∀ spec ∈ specs, ∀ j < front.length, ¬ spec.openTag <+: (front ++ text).drop j)
    (h : Takes specs sees none text out) :
    Takes specs sees none (front ++ text) ⟨front ++ out.visibleText, out.extracted⟩ := by
  cases h with
  | visible hnone => exact .visible fun spec hspec => find_append_eq_none (hfront spec hspec) (hnone spec hspec)
  | @opened _ seen pos idx spec more hsees hbest hspec hrest =>
      have hbest' : Best (specs.map (·.openTag)) (front ++ seen) (front.length + pos) idx spec.openTag := by
        apply hbest.append_left
        intro tag htag j hj hstarts
        obtain ⟨other, hother, rfl⟩ := List.mem_map.mp htag
        obtain ⟨rest, rfl⟩ := hsight.starts hsees
        apply hfront other hother j hj
        rw [← List.append_assoc, List.drop_append_of_le_length (by rw [List.length_append]; omega)]
        exact hstarts.trans (List.prefix_append _ _)
      have hrest' : Takes specs sees (some ⟨spec.tag, spec.closeTag, []⟩)
          ((front ++ text).drop (front.length + pos + spec.openTag.length)) more := by
        rw [Nat.add_assoc, ← List.drop_drop, List.drop_left]
        exact hrest
      have hopened := Takes.opened (hsight.append front hsees) hbest' hspec hrest'
      rw [List.take_length_add_append, List.append_assoc] at hopened
      exact hopened

theorem Takes.append_content {active : ActiveTag τ}
    (hfront : ∀ j < front.length, ¬ active.closeTag <+: (front ++ text).drop j)
    (h : Takes specs sees (some { active with content := active.content ++ front }) text out) :
    Takes specs sees (some active) (front ++ text) out := by
  cases h with
  | unclosed hnone =>
      rw [List.append_assoc]
      exact .unclosed (find_append_eq_none hfront hnone)
  | @closed _ _ idx more hfind hrest =>
      have hfind' : find active.closeTag (front ++ text) = some (front.length + idx) := by
        rw [find_append fun j hj => by rw [← List.drop_append_of_le_length (by omega)]; exact hfront j hj, hfind,
          Nat.add_comm]
        rfl
      have hrest' : Takes specs sees none ((front ++ text).drop (front.length + idx + active.closeTag.length)) more := by
        rw [Nat.add_assoc, ← List.drop_drop, List.drop_left]
        exact hrest
      have hclosed := Takes.closed hfind' hrest'
      rw [List.take_length_add_append, ← List.append_assoc] at hclosed
      exact hclosed

end Front

/-! ## Chunk after chunk -/

def Proper (specs : List (InlineTagSpec τ)) : Prop := ∀ spec ∈ specs, spec.openTag ≠ [] ∧ spec.closeTag ≠ []

namespace InlineHiddenTagParser

structure Uses (specs : List (InlineTagSpec τ)) (parser : InlineHiddenTagParser τ) : Prop where
  specs : parser.specs = specs
  active : ∀ active, parser.active = some active → active.closeTag ≠ []

/-- No tag that the parser waits for is in the buffer. -/
def Settled (parser : InlineHiddenTagParser τ) : Prop :=
  match parser.active with
  | none => ∀ spec ∈ parser.specs, find spec.openTag parser.pending = none
  | some active => find active.closeTag parser.pending = none

end InlineHiddenTagParser

section Streaming

variable {specs : List (InlineTagSpec τ)} {sees : Str → Str → Prop} {future : Str}
  {cont : InlineHiddenTagParser τ → StreamTextChunk (ExtractedInlineTag τ)}

/-- The last turn of the loop, inside of a tag. -/
theorem takes_held_content {pending : Str} {active : ActiveTag τ} (hclose : active.closeTag ≠ [])
    (hnone : find active.closeTag pending = none)
    (hcont : ∀ next : InlineHiddenTagParser τ, next.Uses specs → next.Settled →
      Takes specs sees next.active (next.pending ++ future) (cont next)) (take : Nat)
    (htake : take = pending.length - longestSuffixPrefixLen pending active.closeTag) :
    Takes specs sees (some active) (pending ++ future)
      (cont ⟨specs, pending.drop take, some { active with content := active.content ++ pending.take take }⟩) := by
  have hheld := holdsBack_longestSuffixPrefixLen pending (List.length_pos_of_ne_nil hclose)
  rw [← htake] at hheld
  have hnext := hcont ⟨specs, pending.drop take, some { active with content := active.content ++ pending.take take }⟩
    ⟨rfl, by rintro _ ⟨⟩; exact hclose⟩ (hheld.find_drop hnone)
  obtain ⟨hsplit, hlength⟩ := hheld.split future
  rw [hsplit]
  apply Takes.append_content _ hnext
  intro j hj
  rw [← hsplit]
  exact not_starts_of_holdsBack hnone hheld future (by omega)

theorem find_drop_eq_none {tag pending : Str} (h : find tag pending = none) (take : Nat) :
    find tag (pending.drop take) = none := by
  rw [find_eq_none] at h ⊢
  intro j hj hstarts
  rw [List.length_drop] at hj
  rw [List.drop_drop] at hstarts
  by_cases hle : take + j ≤ pending.length
  · exact h _ hle hstarts
  · rw [List.drop_of_length_le (by omega)] at hstarts
    exact h 0 (Nat.zero_le _) (hstarts.trans List.nil_prefix)

/-- The last turn of the loop, outside of tags. -/
theorem takes_held_visible (hproper : Proper specs) (hsight : Sight sees) {pending : Str}
    (hnone : ∀ spec ∈ specs, find spec.openTag pending = none)
    (hcont : ∀ next : InlineHiddenTagParser τ, next.Uses specs → next.Settled →
      Takes specs sees next.active (next.pending ++ future) (cont next)) (take : Nat)
    (htake : take = pending.length - maxOpenPrefixSuffixLen ⟨specs, pending, none⟩) :
    Takes specs sees none (pending ++ future)
      ⟨pending.take take ++ (cont ⟨specs, pending.drop take, none⟩).visibleText,
        (cont ⟨specs, pending.drop take, none⟩).extracted⟩ := by
  have hnext := hcont ⟨specs, pending.drop take, none⟩ ⟨rfl, nofun⟩
    fun spec hspec => find_drop_eq_none (hnone spec hspec) take
  have hsplit : pending ++ future = pending.take take ++ (pending.drop take ++ future) := by
    rw [← List.append_assoc, List.take_append_drop]
  rw [hsplit]
  apply Takes.append_visible hsight _ hnext
  intro spec hspec j hj
  rw [← hsplit]
  have hkeep : longestSuffixPrefixLen pending spec.openTag ≤ maxOpenPrefixSuffixLen ⟨specs, pending, none⟩ :=
    keep_le_maxOpenPrefixSuffixLen ⟨specs, pending, none⟩ hspec
  have hheld := holdsBack_longestSuffixPrefixLen pending (List.length_pos_of_ne_nil (hproper spec hspec).1)
  rw [List.length_take] at hj
  exact not_starts_of_holdsBack (hnone spec hspec) hheld future (by omega)

variable (cont) in
theorem pushLoop_takes (hproper : Proper specs) (hsight : Sight sees) (hsees : ∀ seen, sees seen (seen ++ future))
    (hcont : ∀ next : InlineHiddenTagParser τ, next.Uses specs → next.Settled →
      Takes specs sees next.active (next.pending ++ future) (cont next)) {fuel : Nat}
    (parser : InlineHiddenTagParser τ) (huses : parser.Uses specs) (hfuel : parser.pending.length < fuel)
    (out : StreamTextChunk (ExtractedInlineTag τ)) :
    ∃ more, Takes specs sees parser.active (parser.pending ++ future) more ∧
      (pushLoop fuel parser out).2.append (cont (pushLoop fuel parser out).1) = out.append more := by
  induction fuel generalizing parser out with
  | zero => exact absurd hfuel (Nat.not_lt_zero _)
  | succ fuel ih =>
      obtain ⟨specs, pending, active⟩ := parser
      obtain ⟨rfl, hactive⟩ := huses
      dsimp only at hfuel
      cases active with
      | some active =>
          have hclose := hactive active rfl
          cases hfind : find active.closeTag pending with
          | some idx =>
              have hlength := length_le_of_find hfind
              have hpos := List.length_pos_of_ne_nil hclose
              obtain ⟨more, htakes, heq⟩ := ih ⟨specs, pending.drop (idx + active.closeTag.length), none⟩ ⟨rfl, nofun⟩
                (by simp only [List.length_drop]; omega)
                { out with extracted := out.extracted ++ [⟨active.tag, active.content ++ pending.take idx⟩] }
              refine ⟨⟨more.visibleText, ⟨active.tag, active.content ++ pending.take idx⟩ :: more.extracted⟩, ?_, ?_⟩
              · rw [← List.drop_append_of_le_length (by omega)] at htakes
                have hclosed := Takes.closed (find_append_of_some future hfind) htakes
                rw [List.take_append_of_le_length (by omega)] at hclosed
                exact hclosed
              · simp only [pushLoop, hfind]
                rw [heq]
                simp [StreamTextChunk.append]
          | none =>
              simp only [pushLoop, hfind]
              exact ⟨_, takes_held_content hclose hfind hcont _ rfl, rfl⟩
      | none =>
          rcases findNextOpen_cases ⟨specs, pending, none⟩ with ⟨pos, idx, spec, hfind, hspec, hbest⟩ | ⟨hfind, hnone⟩
          · have hopen := hproper spec (List.mem_of_getElem? hspec)
            have hend : pos + spec.openTag.length ≤ pending.length := hbest.end_le hopen.1
            have hpos := List.length_pos_of_ne_nil hopen.1
            obtain ⟨more, htakes, heq⟩ := ih
              ⟨specs, pending.drop (pos + spec.openTag.length), some ⟨spec.tag, spec.closeTag, []⟩⟩
              ⟨rfl, by rintro _ ⟨⟩; exact hopen.2⟩ (by simp only [List.length_drop]; omega)
              { out with visibleText := out.visibleText ++ pending.take pos }
            refine ⟨⟨pending.take pos ++ more.visibleText, more.extracted⟩, ?_, ?_⟩
            · rw [← List.drop_append_of_le_length hend] at htakes
              have hopened := Takes.opened (hsees pending) hbest hspec htakes
              rw [List.take_append_of_le_length (by omega)] at hopened
              exact hopened
            · simp only [pushLoop, hfind, hspec]
              rw [heq]
              simp [StreamTextChunk.append]
          · simp only [pushLoop, hfind]
            refine ⟨_, takes_held_visible hproper hsight hnone hcont _ rfl, ?_⟩
            simp [StreamTextChunk.append]

theorem whole_cons (parser : InlineHiddenTagParser τ) (chunk : Str) (chunks : List Str) :
    whole parser (chunk :: chunks) = (parser.pushStr chunk).2.append (whole (parser.pushStr chunk).1 chunks) := by
  rw [whole, whole, ← List.singleton_append, feed_append, feed_singleton, StreamTextChunk.append_assoc]
  rfl

theorem takes_finish {parser : InlineHiddenTagParser τ} (huses : parser.Uses specs) (hsettled : parser.Settled) :
    Takes specs sees parser.active (parser.pending ++ []) (whole parser []) := by
  obtain ⟨specs, pending, active⟩ := parser
  obtain ⟨rfl, hactive⟩ := huses
  rw [List.append_nil]
  cases active with
  | none => exact .visible hsettled
  | some active => exact .unclosed hsettled

theorem takes_whole (hproper : Proper specs) (parser : InlineHiddenTagParser τ) (huses : parser.Uses specs)
    (hsettled : parser.Settled) (chunks : List Str) :
    Takes specs (· <+: ·) parser.active (parser.pending ++ chunks.flatten) (whole parser chunks) := by
  induction chunks generalizing parser with
  | nil => exact takes_finish huses hsettled
  | cons chunk chunks ih =>
      rw [whole_cons, List.flatten_cons, ← List.append_assoc]
      obtain ⟨more, htakes, heq⟩ := pushLoop_takes (fun next => whole next chunks) hproper sight_starts
        (fun seen => List.prefix_append seen chunks.flatten) ih
        { parser with pending := parser.pending ++ chunk } ⟨huses.specs, huses.active⟩ (Nat.lt_succ_self _) .default
      rw [StreamTextChunk.default_append] at heq
      rw [pushStr, heq]
      exact htakes

/-- All of the text is seen when it comes in one chunk. -/
theorem takes_unsplit (hproper : Proper specs) (text : Str) :
    Takes specs (· = ·) none text (whole (⟨specs, [], none⟩ : InlineHiddenTagParser τ) [text]) := by
  obtain ⟨more, htakes, heq⟩ := pushLoop_takes (fun next => whole next []) hproper sight_whole
    (fun seen => (List.append_nil seen).symm) (fun next huses hsettled => takes_finish huses hsettled)
    ⟨specs, text, none⟩ ⟨rfl, nofun⟩ (Nat.lt_succ_self _) .default
  rw [StreamTextChunk.default_append] at heq
  rw [whole_cons, pushStr, List.nil_append, heq]
  rw [List.append_nil] at htakes
  exact htakes

/-- The first chunk decides, if a tag is in it. -/
theorem takes_first (hproper : Proper specs) {chunk : Str} {pos idx : Nat} {spec : InlineTagSpec τ}
    (hspec : specs[idx]? = some spec) (hbest : Best (specs.map (·.openTag)) chunk pos idx spec.openTag)
    (chunks : List Str) :
    ∃ more, Takes specs (· <+: ·) (some ⟨spec.tag, spec.closeTag, []⟩)
        (chunk.drop (pos + spec.openTag.length) ++ chunks.flatten) more ∧
      whole (⟨specs, [], none⟩ : InlineHiddenTagParser τ) (chunk :: chunks) =
        ⟨chunk.take pos ++ more.visibleText, more.extracted⟩ := by
  have hopen := hproper spec (List.mem_of_getElem? hspec)
  have hend := hbest.end_le hopen.1
  have hpos := List.length_pos_of_ne_nil hopen.1
  have hfind : findNextOpen ⟨specs, chunk, none⟩ = some (pos, idx) := by
    rcases findNextOpen_cases ⟨specs, chunk, none⟩ with ⟨pos', idx', spec', hfind, -, hbest'⟩ | ⟨-, hnone⟩
    · obtain ⟨rfl, rfl, -⟩ := hbest.unique hbest'
      exact hfind
    · have habsent := hnone spec (List.mem_of_getElem? hspec)
      exact absurd hbest.found (find_eq_none.mp habsent pos (by dsimp only; omega))
  obtain ⟨more, htakes, heq⟩ := pushLoop_takes (fun next => whole next chunks) hproper sight_starts
    (fun seen => List.prefix_append seen chunks.flatten)
    (fun next huses hsettled => takes_whole hproper next huses hsettled chunks)
    ⟨specs, chunk.drop (pos + spec.openTag.length), some ⟨spec.tag, spec.closeTag, []⟩⟩
    ⟨rfl, by rintro _ ⟨⟩; exact hopen.2⟩
    (show _ < chunk.length by simp only [List.length_drop]; omega) ⟨chunk.take pos, []⟩
  refine ⟨more, htakes, ?_⟩
  rw [whole_cons, pushStr, List.nil_append, pushLoop]
  simp only [hfind, hspec]
  exact heq

end Streaming

/-! ## When chunks do not matter -/

section Nesting

variable {specs : List (InlineTagSpec τ)} {sees : Str → Str → Prop} {text : Str} {active : ActiveTag τ}
  {out : StreamTextChunk (ExtractedInlineTag τ)}

theorem Takes.unique (hproper : Proper specs) (hnested : ¬ Nested (specs.map (·.openTag)))
    {state : Option (ActiveTag τ)} {out' : StreamTextChunk (ExtractedInlineTag τ)}
    (h : Takes specs (· <+: ·) state text out) (h' : Takes specs (· <+: ·) state text out') : out = out' := by
  have hbest_of {seen text : Str} {pos idx : Nat} {spec : InlineTagSpec τ} (hseen : seen <+: text)
      (hspec : specs[idx]? = some spec) (hbest : Best (specs.map (·.openTag)) seen pos idx spec.openTag) :
      Best (specs.map (·.openTag)) text pos idx spec.openTag ∧ find spec.openTag text ≠ none := by
    have hopen := (hproper spec (List.mem_of_getElem? hspec)).1
    have hmono := hbest.mono hnested hopen hseen
    refine ⟨hmono, fun hnone => ?_⟩
    have hend := hmono.end_le hopen
    exact find_eq_none.mp hnone pos (by omega) hmono.found
  induction h generalizing out' with
  | visible hnone =>
      cases h' with
      | visible _ => rfl
      | opened hseen hbest hspec hrest =>
          exact absurd (hnone _ (List.mem_of_getElem? hspec)) (hbest_of hseen hspec hbest).2
  | opened hseen hbest hspec hrest ih =>
      cases h' with
      | visible hnone => exact absurd (hnone _ (List.mem_of_getElem? hspec)) (hbest_of hseen hspec hbest).2
      | opened hseen' hbest' hspec' hrest' =>
          obtain ⟨rfl, rfl, -⟩ := (hbest_of hseen hspec hbest).1.unique (hbest_of hseen' hspec' hbest').1
          obtain rfl := Option.some.inj (hspec.symm.trans hspec')
          rw [ih hrest']
  | unclosed hnone =>
      cases h' with
      | unclosed _ => rfl
      | closed hfind hrest =>
          rw [hnone] at hfind
          cases hfind
  | closed hfind hrest ih =>
      cases h' with
      | unclosed hnone =>
          rw [hnone] at hfind
          cases hfind
      | closed hfind' hrest' =>
          rw [hfind] at hfind'
          obtain rfl := Option.some.inj hfind'
          rw [ih hrest']

theorem Takes.extracted_ne_nil (h : Takes specs sees (some active) text out) : out.extracted ≠ [] := by
  cases h with
  | unclosed hnone => exact List.cons_ne_nil _ _
  | closed hfind hrest => exact List.cons_ne_nil _ _

/-- Every text shows. -/
theorem Takes.text_eq_nil (h : Takes specs sees none text out) (hvisible : out.visibleText = [])
    (hextracted : out.extracted = []) : text = [] := by
  cases h with
  | visible hnone => exact hvisible
  | opened hsees hbest hspec hrest => exact absurd hextracted hrest.extracted_ne_nil

theorem Takes.out_eq_nil (hproper : Proper specs) (hsight : Sight sees) (h : Takes specs sees none [] out) :
    out = ⟨[], []⟩ := by
  cases h with
  | visible hnone => rfl
  | opened hsees hbest hspec hrest =>
      have hopen := (hproper _ (List.mem_of_getElem? hspec)).1
      have hend := hbest.end_le hopen
      have hpos := List.length_pos_of_ne_nil hopen
      rw [List.prefix_nil.mp (hsight.starts hsees), List.length_nil] at hend
      omega

theorem Takes.of_short (hproper : Proper specs) (hsight : Sight sees) (hclose : active.closeTag ≠ [])
    (h : Takes specs sees (some active) text out) (hshort : text.length ≤ 1) :
    out.visibleText = [] ∧ ∃ content, out.extracted = [⟨active.tag, content⟩] ∧
      (text = [] → content = active.content) := by
  cases h with
  | unclosed hnone =>
      refine ⟨rfl, _, rfl, ?_⟩
      rintro rfl
      exact List.append_nil _
  | @closed _ _ idx more hfind hrest =>
      have hlength := length_le_of_find hfind
      have hpos := List.length_pos_of_ne_nil hclose
      rw [List.drop_of_length_le (by omega)] at hrest
      obtain rfl := hrest.out_eq_nil hproper hsight
      refine ⟨rfl, _, rfl, ?_⟩
      rintro rfl
      rw [List.take_nil, List.append_nil]

/-- In a text that starts with an open tag, the tag chosen first is one that starts there and is as long at least. -/
theorem exists_best_at_zero {other : InlineTagSpec τ} (hother : other ∈ specs) (more : Str) :
    ∃ idx spec, specs[idx]? = some spec ∧
      Best (specs.map (·.openTag)) (other.openTag ++ more) 0 idx spec.openTag ∧
        other.openTag.length ≤ spec.openTag.length := by
  have hstarts : other.openTag <+: (other.openTag ++ more).drop 0 := List.prefix_append _ _
  rcases findNextOpen_cases ⟨specs, other.openTag ++ more, none⟩ with ⟨pos, idx, spec, -, hspec, hbest⟩ | ⟨-, hnone⟩
  · obtain rfl : pos = 0 := by
      by_contra hpos
      exact hbest.leftmost _ (List.mem_map_of_mem hother) 0 (Nat.pos_of_ne_zero hpos) hstarts
    exact ⟨idx, spec, hspec, hbest, hbest.longest _ (List.mem_map_of_mem hother) hstarts⟩
  · exact absurd hstarts (find_eq_none.mp (hnone other hother) 0 (Nat.zero_le _))

theorem exists_best_of_infix {spec : InlineTagSpec τ} (hspec : spec ∈ specs) (h : spec.openTag <:+: text) :
    ∃ pos idx found, specs[idx]? = some found ∧ Best (specs.map (·.openTag)) text pos idx found.openTag := by
  rcases findNextOpen_cases ⟨specs, text, none⟩ with ⟨pos, idx, found, -, hfound, hbest⟩ | ⟨-, hnone⟩
  · exact ⟨pos, idx, found, hfound, hbest⟩
  · obtain ⟨front, back, rfl⟩ := h
    have habsent := find_eq_none.mp (hnone spec hspec) front.length (by simp)
    refine absurd ?_ habsent
    rw [List.append_assoc, List.drop_left]
    exact List.prefix_append _ _

/-- A tag in an unfinished other one is taken, if the other one comes in two chunks. It makes a difference for the other
tag alone, unless the rest of it is just the close tag. Then a character behind it does. -/
theorem not_chunkingInvariant_of_nested (hproper : Proper specs) (hnested : Nested (specs.map (·.openTag))) :
    ¬ ChunkingInvariant (⟨specs, [], none⟩ : InlineHiddenTagParser τ) := by
  intro hinvariant
  obtain ⟨tag, htag, otherTag, hotherTag, hinside⟩ := hnested
  obtain ⟨nested, hnested, rfl⟩ := List.mem_map.mp htag
  obtain ⟨other, hother, rfl⟩ := List.mem_map.mp hotherTag
  obtain ⟨begun, last, hlast⟩ : ∃ begun last, other.openTag = begun ++ [last] :=
    ⟨_, _, (List.dropLast_concat_getLast (hproper other hother).1).symm⟩
  rw [hlast, List.dropLast_concat] at hinside
  obtain ⟨pos, idx, spec, hspec, hbest⟩ := exists_best_of_infix hnested hinside
  have hopen := hproper spec (List.mem_of_getElem? hspec)
  have hend := hbest.end_le hopen.1
  have hlong := List.length_pos_of_ne_nil hopen.1
  -- The other tag alone.
  obtain ⟨widx, wspec, hwspec, hwbest, hwlong⟩ := exists_best_at_zero hother []
  obtain ⟨wout, hwtakes, hwhole⟩ := takes_first hproper hwspec hwbest []
  obtain ⟨out, htakes, hcut⟩ := takes_first hproper hspec hbest [[last]]
  have hwclose := (hproper wspec (List.mem_of_getElem? hwspec)).2
  rw [List.append_nil, List.drop_of_length_le (by omega)] at hwtakes
  obtain ⟨hwvisible, content, hwextracted, hcontent⟩ := hwtakes.of_short hproper sight_starts hwclose (Nat.zero_le 1)
  obtain rfl := hcontent rfl
  have hsame := hinvariant [begun, [last]] [other.openTag ++ []] (by simp [hlast])
  rw [hcut, hwhole, hwvisible, hwextracted, List.take_zero, StreamTextChunk.mk.injEq, List.append_nil,
    List.append_eq_nil_iff] at hsame
  obtain ⟨⟨hfront, hvisible⟩, hextracted⟩ := hsame
  obtain rfl : pos = 0 := by
    rcases List.take_eq_nil_iff.mp hfront with hzero | hnil
    · exact hzero
    · rw [hnil, List.length_nil] at hend
      omega
  rw [Nat.zero_add] at hend htakes
  rw [List.flatten_singleton] at htakes
  obtain ⟨closeTag, hclose⟩ : ∃ closeTag, begun.drop spec.openTag.length ++ [last] = closeTag := ⟨_, rfl⟩
  have hne : closeTag ≠ [] := by
    rw [← hclose]
    simp
  rw [hclose] at htakes
  obtain rfl : spec.closeTag = closeTag := by
    cases htakes with
    | unclosed hnone =>
        rw [List.cons.injEq, ExtractedInlineTag.mk.injEq] at hextracted
        exact absurd hextracted.1.2 hne
    | @closed _ _ index more hfind hrest =>
        rw [List.cons.injEq, ExtractedInlineTag.mk.injEq] at hextracted
        have hzero : index = 0 := (List.take_eq_nil_iff.mp hextracted.1.2).resolve_right hne
        obtain ⟨back, hback⟩ := prefix_of_find hfind
        have hnil := hrest.text_eq_nil hvisible hextracted.2
        rw [hzero, List.drop_zero] at hback
        rw [hzero, Nat.zero_add, ← hback, List.drop_left] at hnil
        rw [← hback, hnil, List.append_nil]
  -- A character behind it.
  obtain ⟨widx, wspec, hwspec, hwbest, hwlong⟩ := exists_best_at_zero hother [last]
  obtain ⟨wout, hwtakes, hwhole⟩ := takes_first hproper hwspec hwbest []
  obtain ⟨out, htakes, hcut⟩ := takes_first hproper hspec hbest [[last, last]]
  have hwclose := (hproper wspec (List.mem_of_getElem? hwspec)).2
  have hwshort : ((other.openTag ++ [last]).drop (0 + wspec.openTag.length) ++ ([] : List Str).flatten).length ≤ 1 := by
    simp only [List.length_append, List.length_drop, List.flatten_nil, List.length_nil, List.length_singleton]
    omega
  obtain ⟨hwvisible, content, hwextracted, -⟩ := hwtakes.of_short hproper sight_starts hwclose hwshort
  have hsame := hinvariant [begun, [last, last]] [other.openTag ++ [last]] (by simp [hlast])
  rw [hcut, hwhole, hwvisible, hwextracted, StreamTextChunk.mk.injEq] at hsame
  obtain ⟨hvisible, hextracted⟩ := hsame
  have htext : begun.drop (0 + spec.openTag.length) ++ [[last, last]].flatten = spec.closeTag ++ [last] := by
    rw [← hclose]
    simp
  rw [htext] at htakes
  have hfound := find_eq_zero (List.prefix_append spec.closeTag [last])
  cases htakes with
  | unclosed hnone =>
      rw [hfound] at hnone
      cases hnone
  | closed hfind hrest =>
      rw [hfound] at hfind
      obtain rfl := Option.some.inj hfind
      rw [Nat.zero_add, List.drop_left] at hrest
      have hnil := hrest.text_eq_nil (by simpa using hvisible) (List.cons.inj hextracted).2
      cases hnil

end Nesting

end Codrex.StreamParser
