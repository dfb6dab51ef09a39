import Codrex.ApplyPatch.Grammar

/-!
# Reading the lines of a sentence

The loops of the parser on the lines of a grammar tree, from the lines of a chunk up to all hunks.
-/

namespace Codrex.ApplyPatch

open Text

/-! ## Lines of a chunk -/

def ChangeItem.IsLine (item : ChangeItem) : Prop := ∃ sign text, item = .line sign text

/-- The rest behind a chunk: it is empty, or it goes on with a context or a marker line. -/
def Stops (rest : List Str) : Prop :=
  rest = [] ∨ ∃ c l rest', rest = (c :: l) :: rest' ∧ (c = '@' ∨ c = '*') ∧ (c :: l) ≠ eofMarker

theorem signed_ne_eofMarker (sign : Sign) (text : Str) : sign.char :: text ≠ eofMarker := by
  intro h
  cases sign with
  | added => cases h
  | removed => cases h
  | kept => cases h

/-- A chunk with one more line of the diff. -/
def UpdateFileChunk.push (chunk : UpdateFileChunk) (sign : Sign) (text : Str) : UpdateFileChunk :=
  match sign with
  | .added => { chunk with newLines := chunk.newLines ++ [text] }
  | .removed => { chunk with oldLines := chunk.oldLines ++ [text] }
  | .kept => { chunk with oldLines := chunk.oldLines ++ [text], newLines := chunk.newLines ++ [text] }

theorem chunkLoop_signed (ln : Nat) (sign : Sign) (text : Str) (rest : List Str) (chunk : UpdateFileChunk)
    (n : Nat) : chunkLoop ln ((sign.char :: text) :: rest) chunk n =
      chunkLoop ln rest (chunk.push sign text) (n + 1) := by
  have hne := signed_ne_eofMarker sign text
  rw [chunkLoop.eq_def]
  cases sign with
  | added =>
      simp only [Sign.char] at hne ⊢
      rw [if_neg hne]
      rfl
  | removed =>
      simp only [Sign.char] at hne ⊢
      rw [if_neg hne]
      rfl
  | kept =>
      simp only [Sign.char] at hne ⊢
      rw [if_neg hne]
      rfl

variable {run items : List ChangeItem} {rest : List Str} {eofLine : Bool}

theorem chunkLoop_run (ln : Nat) (hrun : ∀ i ∈ run, i.IsLine) (rest : List Str) (chunk : UpdateFileChunk) (n : Nat) :
    ∃ chunk', chunkLoop ln (run.map ChangeItem.text ++ rest) chunk n =
      chunkLoop ln rest chunk' (n + run.length) := by
  induction run generalizing chunk n with
  | nil => exact ⟨chunk, rfl⟩
  | cons item run ih =>
      obtain ⟨sign, text, rfl⟩ := hrun item List.mem_cons_self
      obtain ⟨chunk', h⟩ := ih (fun i hi => hrun i (List.mem_cons_of_mem _ hi)) (chunk.push sign text) (n + 1)
      refine ⟨chunk', ?_⟩
      rw [List.map_cons, List.cons_append]
      simp only [ChangeItem.text]
      rw [chunkLoop_signed, h, List.length_cons]
      congr 1
      omega

theorem chunkLoop_stops (ln : Nat) (hrest : Stops rest) (chunk : UpdateFileChunk) {n : Nat} (hn : n ≠ 0) :
    chunkLoop ln rest chunk n = .ok (chunk, n) := by
  rcases hrest with rfl | ⟨c, l, rest', rfl, hc, hne⟩
  · rfl
  · rw [chunkLoop.eq_def]
    simp only [if_neg hne]
    rcases hc with rfl | rfl
    · simp [hn]
    · simp [hn]

theorem chunkLoop_eof (ln : Nat) (rest : List Str) (chunk : UpdateFileChunk) {n : Nat} (hn : n ≠ 0) :
    chunkLoop ln (eofMarker :: rest) chunk n = .ok ({ chunk with isEndOfFile := true }, n + 1) := by
  rw [chunkLoop.eq_def]
  simp only [if_true, if_neg hn]

theorem chunkLoop_last (ln : Nat) (hrun : ∀ i ∈ run, i.IsLine) (hne : run ≠ []) (eofLine : Bool) (hrest : Stops rest)
    (chunk : UpdateFileChunk) :
    ∃ chunk', chunkLoop ln (run.map ChangeItem.text ++ (eofLines eofLine ++ rest)) chunk 0 =
      .ok (chunk', run.length + (eofLines eofLine).length) := by
  obtain ⟨chunk₁, h₁⟩ := chunkLoop_run ln hrun (eofLines eofLine ++ rest) chunk 0
  have hlen : 0 + run.length ≠ 0 := by
    rw [Nat.zero_add]
    exact mt List.length_eq_zero_iff.mp hne
  cases eofLine with
  | false =>
      refine ⟨chunk₁, ?_⟩
      rw [h₁, Nat.zero_add]
      exact chunkLoop_stops ln hrest chunk₁ (by omega)
  | true =>
      refine ⟨{ chunk₁ with isEndOfFile := true }, ?_⟩
      rw [h₁, Nat.zero_add]
      exact chunkLoop_eof ln rest chunk₁ (by omega)

/-! ## One chunk -/

theorem contextText_ne_nil (text : Option Str) : ∃ l, (ChangeItem.context text).text = '@' :: l := by
  cases text with
  | none => exact ⟨_, rfl⟩
  | some text => exact ⟨_, rfl⟩

theorem chunkContext_context (text : Option Str) (ln : Nat) (allowMissing : Bool) :
    ∃ context, chunkContext (ChangeItem.context text).text ln allowMissing = .ok (context, 1) := by
  unfold chunkContext
  cases text with
  | none => exact ⟨none, rfl⟩
  | some text =>
      have hne : changeContextMarker ++ text ≠ emptyChangeContextMarker := by
        intro h
        cases h
      have htext : (ChangeItem.context (some text)).text = changeContextMarker ++ text := rfl
      refine ⟨some text, ?_⟩
      rw [htext, if_neg hne, stripPrefix_append]

theorem chunkContext_line (sign : Sign) (text : Str) (ln : Nat) :
    chunkContext (sign.char :: text) ln true = .ok (none, 0) := by
  cases sign with
  | added => rfl
  | removed => rfl
  | kept => rfl

/-- What follows a run of lines: the end of the change, or the context of the next chunk. -/
inductive Follows (eofLine : Bool) (rest : List Str) : List ChangeItem → Prop
  | done : Follows eofLine rest []
  | context (text : Option Str) (items : List ChangeItem) : Follows eofLine rest (.context text :: items)

def takenBy (eofLine : Bool) (items : List ChangeItem) : Nat :=
  if items = [] then (eofLines eofLine).length else 0

theorem chunkLoop_follows (ln : Nat) (hrun : ∀ i ∈ run, i.IsLine) (hne : run ≠ []) (hrest : Stops rest)
    (hfollows : Follows eofLine rest items) (chunk : UpdateFileChunk) :
    ∃ chunk', chunkLoop ln
        (run.map ChangeItem.text ++ (items.map ChangeItem.text ++ (eofLines eofLine ++ rest))) chunk 0 =
      .ok (chunk', run.length + takenBy eofLine items) := by
  cases hfollows with
  | done => exact chunkLoop_last ln hrun hne eofLine hrest chunk
  | context text items =>
      obtain ⟨l, hl⟩ := contextText_ne_nil text
      have hstops : Stops ((ChangeItem.context text :: items).map ChangeItem.text ++
          (eofLines eofLine ++ rest)) := by
        refine Or.inr ⟨'@', l, items.map ChangeItem.text ++ (eofLines eofLine ++ rest), ?_, Or.inl rfl, ?_⟩
        · rw [List.map_cons, hl]
          rfl
        · intro h
          cases h
      obtain ⟨chunk', h⟩ := chunkLoop_last ln hrun hne false hstops chunk
      exact ⟨chunk', by simpa [eofLines, takenBy] using h⟩

theorem parseUpdateFileChunk_context (ln : Nat) (allowMissing : Bool) (text : Option Str) (hrun : ∀ i ∈ run, i.IsLine)
    (hne : run ≠ []) (hrest : Stops rest) (hfollows : Follows eofLine rest items) :
    ∃ chunk, parseUpdateFileChunk ((ChangeItem.context text).text ::
        (run.map ChangeItem.text ++ (items.map ChangeItem.text ++ (eofLines eofLine ++ rest)))) ln allowMissing =
      .ok (chunk, run.length + takenBy eofLine items + 1) := by
  obtain ⟨context, hcontext⟩ := chunkContext_context text ln allowMissing
  obtain ⟨chunk, hchunk⟩ := chunkLoop_follows ln hrun hne hrest hfollows ⟨context, [], [], false⟩
  refine ⟨chunk, ?_⟩
  obtain ⟨i, run', rfl⟩ := List.exists_cons_of_ne_nil hne
  unfold parseUpdateFileChunk
  simp only [hcontext, Fallible.ok_bind, List.drop_succ_cons, List.drop_zero]
  rw [if_neg (by simp), hchunk]
  rfl

/-- The first chunk may start without a context line. -/
theorem parseUpdateFileChunk_line (ln : Nat) (hrun : ∀ i ∈ run, i.IsLine) (hne : run ≠ []) (hrest : Stops rest)
    (hfollows : Follows eofLine rest items) :
    ∃ chunk, parseUpdateFileChunk
        (run.map ChangeItem.text ++ (items.map ChangeItem.text ++ (eofLines eofLine ++ rest))) ln true =
      .ok (chunk, run.length + takenBy eofLine items) := by
  obtain ⟨i, run', rfl⟩ := List.exists_cons_of_ne_nil hne
  obtain ⟨sign, text, rfl⟩ := hrun i List.mem_cons_self
  obtain ⟨chunk, hchunk⟩ := chunkLoop_follows ln hrun hne hrest hfollows ⟨none, [], [], false⟩
  refine ⟨chunk, ?_⟩
  have hcontext := chunkContext_line sign text ln
  rw [List.map_cons, List.cons_append] at hchunk ⊢
  unfold parseUpdateFileChunk
  simp only [ChangeItem.text] at hchunk ⊢
  simp only [hcontext, Fallible.ok_bind, List.drop_zero]
  rw [if_neg (by simp), hchunk]
  rfl

/-! ## The chunks of a change -/

/-- A line that may start a chunk: it is not blank and not a marker. -/
def Opens (line : Str) : Prop := trim line ≠ [] ∧ line.head? ≠ some '*'

theorem opens_of_head {c : Char} {l : Str} (hc : isWhitespace c = false) (hstar : c ≠ '*') : Opens (c :: l) := by
  refine ⟨fun hnil => ?_, ?_⟩
  · have := trim_eq_nil_iff.mp hnil c List.mem_cons_self
    rw [hc] at this
    cases this
  · intro h
    exact hstar (Option.some.inj h)

theorem opens_context (text : Option Str) : Opens (ChangeItem.context text).text := by
  obtain ⟨l, hl⟩ := contextText_ne_nil text
  rw [hl]
  exact opens_of_head (by decide) (by decide)

theorem opens_line {item : ChangeItem} (hline : item.IsLine) (hblank : ¬ item.IsBlank) : Opens item.text := by
  obtain ⟨sign, text, rfl⟩ := hline
  cases sign with
  | added => exact opens_of_head (by decide) (by decide)
  | removed => exact opens_of_head (by decide) (by decide)
  | kept =>
      refine ⟨fun hnil => hblank ?_, ?_⟩
      · apply trim_eq_nil_iff.mpr
        intro c hc
        exact trim_eq_nil_iff.mp hnil c (List.mem_cons_of_mem _ hc)
      · intro h
        cases h

variable {ln fuel parsed : Nat} {chunks : List UpdateFileChunk} {filename : Str}

theorem chunksLoop_chunk (fuel : Nat) (chunks : List UpdateFileChunk) {chunkLines : Nat} {line : Str}
    {chunk : UpdateFileChunk} (hopens : Opens line)
    (h : parseUpdateFileChunk (line :: rest) (ln + parsed) chunks.isEmpty = .ok (chunk, chunkLines)) :
    chunksLoop ln false (fuel + 1) (line :: rest) parsed chunks =
      chunksLoop ln false fuel ((line :: rest).drop chunkLines) (parsed + chunkLines) (chunks ++ [chunk]) := by
  rw [chunksLoop, if_neg (by simpa using hopens.1), if_neg hopens.2, if_neg (by simp), h]

theorem chunksLoop_blank {line : Str} (h : trim line = []) :
    chunksLoop ln false (fuel + 1) (line :: rest) parsed chunks =
      chunksLoop ln false fuel rest (parsed + 1) chunks := by
  rw [chunksLoop, if_pos (by simp [h])]

/-- The rest behind a hunk: it is empty, or the next marker line. -/
def NextMarker (rest : List Str) : Prop :=
  rest = [] ∨ ∃ l rest', rest = ('*' :: l) :: rest' ∧ ('*' :: l) ≠ eofMarker

theorem NextMarker.stops (h : NextMarker rest) : Stops rest := by
  rcases h with rfl | ⟨l, rest', rfl, hne⟩
  · exact Or.inl rfl
  · exact Or.inr ⟨'*', l, rest', rfl, Or.inr rfl, hne⟩

theorem chunksLoop_nextMarker (h : NextMarker rest) :
    chunksLoop ln false (fuel + 1) rest parsed chunks = .ok (chunks, parsed) := by
  rcases h with rfl | ⟨l, rest', rfl, -⟩
  · rfl
  · have hne : trim ('*' :: l) ≠ [] := by
      intro hnil
      have := trim_eq_nil_iff.mp hnil '*' List.mem_cons_self
      cases this
    rw [chunksLoop, if_neg (by simpa using hne), if_pos List.head?_cons]

theorem exists_run (items : List ChangeItem) :
    ∃ run rest, items = run ++ rest ∧ (∀ i ∈ run, i.IsLine) ∧
      (rest = [] ∨ ∃ text rest', rest = .context text :: rest') := by
  induction items with
  | nil => exact ⟨[], [], rfl, by simp, Or.inl rfl⟩
  | cons item items ih =>
      cases item with
      | context text => exact ⟨[], .context text :: items, rfl, by simp, Or.inr ⟨text, items, rfl⟩⟩
      | line sign text =>
          obtain ⟨run, rest, rfl, hrun, hrest⟩ := ih
          refine ⟨.line sign text :: run, rest, rfl, ?_, hrest⟩
          intro i hi
          rcases List.mem_cons.mp hi with rfl | hi
          · exact ⟨sign, text, rfl⟩
          · exact hrun i hi

theorem contextsFollowed_of_run {rest : List ChangeItem} (hrun : ∀ i ∈ run, i.IsLine)
    (h : ContextsFollowed (run ++ rest)) : ContextsFollowed rest := by
  induction run with
  | nil => exact h
  | cons i run ih =>
      obtain ⟨sign, text, rfl⟩ := hrun i List.mem_cons_self
      rw [List.cons_append, ContextsFollowed] at h
      exact ih (fun j hj => hrun j (List.mem_cons_of_mem _ hj)) h

def itemLines (items : List ChangeItem) (eofLine : Bool) (rest : List Str) : List Str :=
  items.map ChangeItem.text ++ (eofLines eofLine ++ rest)

theorem itemLines_append (run items : List ChangeItem) (eofLine : Bool) (rest : List Str) :
    itemLines (run ++ items) eofLine rest =
      run.map ChangeItem.text ++ (items.map ChangeItem.text ++ (eofLines eofLine ++ rest)) := by
  rw [itemLines, List.map_append, List.append_assoc]

theorem takenBy_le (eofLine : Bool) (items : List ChangeItem) :
    takenBy eofLine items ≤ items.length + (eofLines eofLine).length := by
  unfold takenBy
  split
  · exact Nat.le_add_left _ _
  · exact Nat.zero_le _

theorem drop_taken (hitems : items = [] ∨ ∃ text items', items = .context text :: items') :
    (itemLines (run ++ items) eofLine rest).drop (run.length + takenBy eofLine items) =
      if items = [] then rest else itemLines items eofLine rest := by
  unfold itemLines
  have hrun : run.length = (run.map ChangeItem.text).length := (List.length_map _).symm
  rcases hitems with rfl | ⟨text, items', rfl⟩
  · rw [List.append_nil, if_pos rfl, takenBy, if_pos rfl, hrun, ← List.length_append, ← List.append_assoc,
      List.drop_left]
  · rw [if_neg (List.cons_ne_nil _ _), takenBy, if_neg (List.cons_ne_nil _ _), Nat.add_zero, List.map_append,
      List.append_assoc, hrun, List.drop_left]

theorem follows_of (hitems : items = [] ∨ ∃ text items', items = .context text :: items') :
    Follows eofLine rest items := by
  rcases hitems with rfl | ⟨text, items', rfl⟩
  · exact .done
  · exact .context text items'

theorem chunksLoop_after (ln fuel parsed : Nat) (chunks : List UpdateFileChunk) (eofLine : Bool)
    (hnext : NextMarker rest) (hitems : items = [] ∨ ∃ text items', items = .context text :: items') (hne : chunks ≠ [])
    (hfuel : 0 < fuel)
    (hgroups : items ≠ [] → ∃ chunks', chunks' ≠ [] ∧
      chunksLoop ln false fuel (itemLines items eofLine rest) parsed chunks =
        .ok (chunks', parsed + (items.length + (eofLines eofLine).length))) :
    ∃ chunks', chunks' ≠ [] ∧
      chunksLoop ln false fuel (if items = [] then rest else itemLines items eofLine rest) parsed chunks =
        .ok (chunks', parsed + (items.length + (eofLines eofLine).length) - takenBy eofLine items) := by
  rcases hitems with rfl | ⟨text, items', rfl⟩
  · obtain ⟨fuel, rfl⟩ := Nat.exists_eq_succ_of_ne_zero (Nat.ne_of_gt hfuel)
    refine ⟨chunks, hne, ?_⟩
    rw [if_pos rfl, chunksLoop_nextMarker hnext, takenBy, if_pos rfl]
    simp
  · obtain ⟨chunks', hne', h⟩ := hgroups (List.cons_ne_nil _ _)
    refine ⟨chunks', hne', ?_⟩
    rw [if_neg (List.cons_ne_nil _ _), h, takenBy, if_neg (List.cons_ne_nil _ _)]
    rfl

theorem chunksLoop_groups (hnext : NextMarker rest) {text : Option Str}
    (hfollowed : ContextsFollowed (.context text :: items)) (hfuel : items.length + 1 < fuel) :
    ∃ chunks', chunks' ≠ [] ∧
      chunksLoop ln false fuel (itemLines (.context text :: items) eofLine rest) parsed chunks =
        .ok (chunks', parsed + (items.length + 1 + (eofLines eofLine).length)) := by
  induction hn : items.length using Nat.strong_induction_on generalizing items text fuel parsed chunks with
  | _ n ih =>
      obtain ⟨run, items', rfl, hrun, hitems'⟩ := exists_run items
      have hne : run ≠ [] := by
        rintro rfl
        rcases hitems' with rfl | ⟨text', rest', rfl⟩
        · exact hfollowed
        · obtain ⟨⟨sign, t, hcontra⟩, -⟩ := hfollowed
          cases hcontra
      have hfollowed' : ContextsFollowed items' := by
        apply contextsFollowed_of_run hrun
        obtain ⟨i, run', rfl⟩ := List.exists_cons_of_ne_nil hne
        exact hfollowed.2
      have hpos : 0 < run.length := List.length_pos_iff.mpr hne
      obtain ⟨fuel, rfl⟩ := Nat.exists_eq_succ_of_ne_zero (Nat.ne_zero_of_lt hfuel)
      simp only [List.length_append] at hfuel hn
      obtain ⟨chunk, hchunk⟩ := parseUpdateFileChunk_context (ln + parsed) chunks.isEmpty text hrun hne
        hnext.stops (follows_of hitems')
      have hlines : itemLines (.context text :: (run ++ items')) eofLine rest =
          (ChangeItem.context text).text :: itemLines (run ++ items') eofLine rest := rfl
      rw [← itemLines_append] at hchunk
      rw [hlines, Nat.succ_eq_add_one, chunksLoop_chunk fuel chunks (opens_context text) hchunk,
        List.drop_succ_cons, drop_taken hitems']
      have hle := takenBy_le eofLine items'
      obtain ⟨chunks', hne', h⟩ := chunksLoop_after ln fuel (parsed + (run.length + takenBy eofLine items' + 1))
        (chunks ++ [chunk]) eofLine hnext hitems' (by simp) (by omega) (by
          intro hnonempty
          rcases hitems' with rfl | ⟨text', rest', rfl⟩
          · exact absurd rfl hnonempty
          · simp only [List.length_cons] at hn hfuel
            have hfuel' : rest'.length + 1 < fuel := by omega
            obtain ⟨chunks', hne', h⟩ := ih rest'.length (by omega) hfollowed' hfuel' rfl
            exact ⟨chunks', hne', h⟩)
      refine ⟨chunks', hne', ?_⟩
      rw [h]
      congr 2
      omega

theorem trim_blank {item : ChangeItem} (h : item.IsBlank) : trim item.text = [] := by
  cases item with
  | context text => cases h
  | line sign text =>
      cases sign with
      | added => cases h
      | removed => cases h
      | kept =>
          apply trim_eq_nil_iff.mpr
          intro c hc
          rcases List.mem_cons.mp hc with rfl | hc
          · rfl
          · exact trim_eq_nil_iff.mp h c hc

theorem chunksLoop_lines (hnext : NextMarker rest) {item : ChangeItem} (hline : item.IsLine) (hblank : ¬ item.IsBlank)
    (hfollowed : ContextsFollowed items) (hfuel : items.length + 1 < fuel) :
    ∃ chunks', chunks' ≠ [] ∧
      chunksLoop ln false fuel (itemLines (item :: items) eofLine rest) parsed [] =
        .ok (chunks', parsed + (items.length + 1 + (eofLines eofLine).length)) := by
  obtain ⟨run, items', rfl, hrun, hitems'⟩ := exists_run items
  have hrun' : ∀ i ∈ item :: run, i.IsLine := by
    intro i hi
    rcases List.mem_cons.mp hi with rfl | hi
    · exact hline
    · exact hrun i hi
  have hfollowed' := contextsFollowed_of_run hrun hfollowed
  obtain ⟨fuel, rfl⟩ := Nat.exists_eq_succ_of_ne_zero (Nat.ne_zero_of_lt hfuel)
  simp only [List.length_append] at hfuel
  obtain ⟨chunk, hchunk⟩ := parseUpdateFileChunk_line (ln + parsed) hrun' (List.cons_ne_nil _ _)
    hnext.stops (follows_of hitems')
  have hlines : itemLines (item :: run ++ items') eofLine rest =
      item.text :: itemLines (run ++ items') eofLine rest := rfl
  rw [← itemLines_append, hlines] at hchunk
  have hloop := chunksLoop_chunk fuel [] (opens_line hline hblank) hchunk
  rw [← hlines, drop_taken hitems'] at hloop
  rw [← List.cons_append, Nat.succ_eq_add_one, hloop]
  have hle := takenBy_le eofLine items'
  obtain ⟨chunks', hne', h⟩ := chunksLoop_after ln fuel (parsed + ((item :: run).length + takenBy eofLine items'))
    ([] ++ [chunk]) eofLine hnext hitems' (by simp) (by omega) (by
      intro hnonempty
      rcases hitems' with rfl | ⟨text', rest', rfl⟩
      · exact absurd rfl hnonempty
      · simp only [List.length_cons] at hfuel
        exact chunksLoop_groups hnext hfollowed' (by omega))
  refine ⟨chunks', hne', ?_⟩
  rw [h]
  simp only [List.length_cons, List.length_append]
  congr 2
  omega

/-- The lines of an anchored change are read as its chunks; blank lines in front are skipped. -/
theorem chunksLoop_change (ln parsed : Nat) (hnext : NextMarker rest) (hfollowed : ContextsFollowed items)
    (hsome : ∃ item ∈ items, ¬ item.IsBlank) (hfuel : items.length < fuel) :
    ∃ chunks', chunks' ≠ [] ∧
      chunksLoop ln false fuel (itemLines items eofLine rest) parsed [] =
        .ok (chunks', parsed + (items.length + (eofLines eofLine).length)) := by
  induction items generalizing fuel parsed with
  | nil =>
      obtain ⟨item, hmem, -⟩ := hsome
      cases hmem
  | cons item items ih =>
      rw [List.length_cons] at hfuel ⊢
      cases item with
      | context text => exact chunksLoop_groups hnext hfollowed hfuel
      | line sign text =>
          have hline : (ChangeItem.line sign text).IsLine := ⟨sign, text, rfl⟩
          rw [ContextsFollowed] at hfollowed
          by_cases hblank : (ChangeItem.line sign text).IsBlank
          · obtain ⟨fuel, rfl⟩ := Nat.exists_eq_succ_of_ne_zero (Nat.ne_zero_of_lt hfuel)
            have hsome' : ∃ item ∈ items, ¬ item.IsBlank := by
              obtain ⟨other, hmem, hother⟩ := hsome
              rcases List.mem_cons.mp hmem with rfl | hmem
              · exact absurd hblank hother
              · exact ⟨other, hmem, hother⟩
            have hfuel' : items.length < fuel := by omega
            obtain ⟨chunks', hne, h⟩ := @ih fuel (parsed + 1) hfollowed hsome' hfuel'
            refine ⟨chunks', hne, ?_⟩
            have hlines : itemLines (.line sign text :: items) eofLine rest =
                (ChangeItem.line sign text).text :: itemLines items eofLine rest := rfl
            rw [hlines, Nat.succ_eq_add_one, chunksLoop_blank (trim_blank hblank), h]
            congr 2
            omega
          · exact chunksLoop_lines hnext hline hblank hfollowed hfuel

/-! ## One hunk -/

theorem trim_marker {marker : Str} (h : IsFilename filename) :
    trim ('*' :: marker ++ filename) = '*' :: marker ++ filename := by
  obtain ⟨front, d, rfl, hd⟩ := exists_last_of_trim h.2 h.1.1
  rw [← List.append_assoc, List.cons_append]
  exact trim_eq_self (by decide) hd

theorem trim_addFile (h : IsFilename filename) :
    trim (addFileMarker ++ filename) = addFileMarker ++ filename := trim_marker h

theorem trim_deleteFile (h : IsFilename filename) :
    trim (deleteFileMarker ++ filename) = deleteFileMarker ++ filename := trim_marker h

theorem trim_updateFile (h : IsFilename filename) :
    trim (updateFileMarker ++ filename) = updateFileMarker ++ filename := trim_marker h

theorem addLines_append (lines : List Str) (hnext : NextMarker rest) :
    addLines (lines.map ('+' :: ·) ++ rest) = lines := by
  induction lines with
  | nil =>
      rcases hnext with rfl | ⟨l, rest', rfl, -⟩
      · rfl
      · rfl
  | cons line lines ih =>
      rw [List.map_cons, List.cons_append, addLines, ih]

theorem parseOneHunk_add (h : IsFilename filename) (lines : List Str) (hnext : NextMarker rest) (ln : Nat) :
    parseOneHunk ((GrammarHunk.addHunk filename lines).lines ++ rest) ln false =
      .ok (.addFile filename (lines.flatMap (· ++ ['\n'])), (GrammarHunk.addHunk filename lines).lines.length) := by
  simp only [parseOneHunk, GrammarHunk.lines, List.cons_append, List.headD_cons, List.tail_cons]
  rw [trim_addFile h, stripPrefix_append]
  simp only [parseAddFile, addLines_append lines hnext, List.length_cons, List.length_map]
  rw [Nat.add_comm]

theorem parseOneHunk_delete (h : IsFilename filename) (rest : List Str) (ln : Nat) :
    parseOneHunk ((GrammarHunk.deleteHunk filename).lines ++ rest) ln false =
      .ok (.deleteFile filename, (GrammarHunk.deleteHunk filename).lines.length) := by
  simp only [parseOneHunk, GrammarHunk.lines, List.cons_append, List.headD_cons]
  have hno : stripPrefix addFileMarker (deleteFileMarker ++ filename) = none := rfl
  rw [trim_deleteFile h, hno, stripPrefix_append]
  rfl

theorem stripPrefix_move_item (item : ChangeItem) : stripPrefix moveToMarker item.text = none := by
  cases item with
  | context text =>
      cases text with
      | none => rfl
      | some text => rfl
  | line sign text =>
      cases sign with
      | added => rfl
      | removed => rfl
      | kept => rfl

theorem parseUpdateFile_change (filename : Str) (changeMove : Option Str) {change : Change} (hwf : change.WellFormed)
    (hanchored : change.Anchored) (hnext : NextMarker rest) (ln : Nat) :
    ∃ chunks, parseUpdateFile filename
        ((changeMove.map (moveToMarker ++ ·)).toList ++ (change.lines ++ rest)) ln false =
      .ok (.updateFile filename changeMove chunks,
        1 + changeMove.toList.length + change.lines.length) := by
  have hlines : change.lines ++ rest = itemLines change.items change.eofLine rest := by
    rw [Change.lines, List.append_assoc]
    rfl
  have hlength : change.lines.length = change.items.length + (eofLines change.eofLine).length := by
    rw [Change.lines, List.length_append, List.length_map]
    rfl
  rw [hlines, hlength]
  have hfuel : change.items.length < (itemLines change.items change.eofLine rest).length + 1 := by
    unfold itemLines
    simp only [List.length_append, List.length_map]
    omega
  cases changeMove with
  | some dest =>
      obtain ⟨chunks, hne, h⟩ := chunksLoop_change ln 2 hnext hanchored.1 hanchored.2 hfuel
      refine ⟨chunks, ?_⟩
      unfold parseUpdateFile
      simp only [Option.map_some, Option.toList_some, List.cons_append, List.nil_append, List.head?_cons,
        Option.bind_some, stripPrefix_append, Option.isSome_some, if_true, List.tail_cons]
      rw [h, Fallible.ok_bind]
      simp only [List.isEmpty_iff, hne, if_false, List.length_singleton]
  | none =>
      obtain ⟨chunks, hne, h⟩ := chunksLoop_change ln 1 hnext hanchored.1 hanchored.2 hfuel
      refine ⟨chunks, ?_⟩
      obtain ⟨item, items, hitems⟩ := List.exists_cons_of_ne_nil hwf.1
      have hhead : (itemLines change.items change.eofLine rest).head?.bind (stripPrefix moveToMarker) = none := by
        rw [hitems]
        exact stripPrefix_move_item item
      unfold parseUpdateFile
      simp only [Option.map_none, Option.toList_none, List.nil_append, hhead, Option.isSome_none,
        Bool.false_eq_true, if_false]
      rw [h, Fallible.ok_bind]
      simp only [List.isEmpty_iff, hne, if_false, List.length_nil]

/-- An anchored hunk of the grammar is read to its end, as a hunk with the same header. -/
theorem parseOneHunk_hunk {hunk : GrammarHunk} (hwf : hunk.WellFormed) (hanchored : hunk.Anchored)
    (hnext : NextMarker rest) (ln : Nat) :
    ∃ parsed, parseOneHunk (hunk.lines ++ rest) ln false = .ok (parsed, hunk.lines.length) ∧
      parsed.header = hunk.header := by
  cases hunk with
  | addHunk filename lines => exact ⟨_, parseOneHunk_add hwf.1 lines hnext ln, rfl⟩
  | deleteHunk filename => exact ⟨_, parseOneHunk_delete hwf rest ln, rfl⟩
  | updateHunk filename changeMove change =>
      obtain ⟨c, rfl, hc⟩ := hanchored
      obtain ⟨chunks, h⟩ := parseUpdateFile_change filename changeMove (hwf.2.2 c rfl) hc hnext ln
      refine ⟨.updateFile filename changeMove chunks, ?_, rfl⟩
      simp only [parseOneHunk, GrammarHunk.lines, List.cons_append, List.headD_cons, List.tail_cons,
        Option.map_some, Option.getD_some, List.append_assoc]
      have hadd : stripPrefix addFileMarker (updateFileMarker ++ filename) = none := rfl
      have hdelete : stripPrefix deleteFileMarker (updateFileMarker ++ filename) = none := rfl
      rw [trim_updateFile hwf.1, hadd, hdelete, stripPrefix_append]
      simp only [h, List.length_cons, List.length_append]
      congr 2
      cases changeMove with
      | none => simp; omega
      | some dest => simp; omega

/-! ## All hunks -/

theorem nextMarker_lines (hunk : GrammarHunk) (rest : List Str) : NextMarker (hunk.lines ++ rest) := by
  cases hunk with
  | addHunk filename lines =>
      refine Or.inr ⟨_, _, rfl, ?_⟩
      intro h
      cases h
  | deleteHunk filename =>
      refine Or.inr ⟨_, _, rfl, ?_⟩
      intro h
      cases h
  | updateHunk filename changeMove change =>
      refine Or.inr ⟨_, _, rfl, ?_⟩
      intro h
      cases h

theorem length_lines_pos (hunk : GrammarHunk) : 0 < hunk.lines.length := by
  cases hunk with
  | addHunk filename lines => exact Nat.succ_pos _
  | deleteHunk filename => exact Nat.succ_pos _
  | updateHunk filename changeMove change => exact Nat.succ_pos _

theorem hunksLoop_step {allow : Bool} {fuel ln : Nat} {ls : List Str} {hunk : Hunk} {n : Nat} (hne : ls ≠ [])
    (h : parseOneHunk ls ln allow = .ok (hunk, n)) :
    hunksLoop allow (fuel + 1) ls ln =
      (hunksLoop allow fuel (ls.drop n) (ln + n) >>= fun hunks => .ok (hunk :: hunks)) := by
  obtain ⟨line, rest, rfl⟩ := List.exists_cons_of_ne_nil hne
  rw [hunksLoop, h, Fallible.ok_bind]

theorem hunksLoop_hunks {hunks : List GrammarHunk} (hwf : ∀ hunk ∈ hunks, hunk.WellFormed)
    (hanchored : ∀ hunk ∈ hunks, hunk.Anchored) {fuel : Nat}
    (hfuel : (hunks.flatMap GrammarHunk.lines).length < fuel) (ln : Nat) :
    ∃ parsed, hunksLoop false fuel (hunks.flatMap GrammarHunk.lines) ln = .ok parsed ∧
      parsed.map Hunk.header = hunks.map GrammarHunk.header := by
  induction hunks generalizing fuel ln with
  | nil =>
      obtain ⟨fuel, rfl⟩ := Nat.exists_eq_succ_of_ne_zero (Nat.ne_zero_of_lt hfuel)
      exact ⟨[], rfl, rfl⟩
  | cons hunk hunks ih =>
      obtain ⟨fuel, rfl⟩ := Nat.exists_eq_succ_of_ne_zero (Nat.ne_zero_of_lt hfuel)
      rw [List.flatMap_cons] at hfuel ⊢
      have hnext : NextMarker (hunks.flatMap GrammarHunk.lines) := by
        cases hunks with
        | nil => exact Or.inl rfl
        | cons hunk' hunks' => exact nextMarker_lines hunk' _
      have hpos := length_lines_pos hunk
      rw [List.length_append] at hfuel
      obtain ⟨first, hfirst, hheader⟩ := parseOneHunk_hunk (hwf hunk List.mem_cons_self)
        (hanchored hunk List.mem_cons_self) hnext ln
      have hfuel' : (hunks.flatMap GrammarHunk.lines).length < fuel := by omega
      obtain ⟨others, hothers, hheaders⟩ := ih (fun h hh => hwf h (List.mem_cons_of_mem _ hh))
        (fun h hh => hanchored h (List.mem_cons_of_mem _ hh)) hfuel' (ln + hunk.lines.length)
      refine ⟨first :: others, ?_, by rw [List.map_cons, List.map_cons, hheader, hheaders]⟩
      have hne : hunk.lines ++ hunks.flatMap GrammarHunk.lines ≠ [] := by
        intro hnil
        rw [(List.append_eq_nil_iff.mp hnil).1] at hpos
        cases hpos
      rw [Nat.succ_eq_add_one, hunksLoop_step hne hfirst, List.drop_left, hothers]
      rfl

end Codrex.ApplyPatch
