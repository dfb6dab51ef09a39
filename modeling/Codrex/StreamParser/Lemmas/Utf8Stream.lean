import Codrex.StreamParser.Lemmas.InlineHiddenTag

/-!
# What a parser of bytes hands on
-/

namespace Codrex.StreamParser

open Text Utf8

/-! ## Outputs one behind the other -/

namespace StreamTextChunk

variable {α : Type}

@[simp] theorem default_append (chunk : StreamTextChunk α) : default.append chunk = chunk := rfl

@[simp] theorem append_default (chunk : StreamTextChunk α) : chunk.append default = chunk := by
  simp [append, default]

theorem append_assoc (first second third : StreamTextChunk α) :
    (first.append second).append third = first.append (second.append third) := by
  simp [append]

end StreamTextChunk

section Feed

variable {π ε : Type} [StreamTextParser π ε]

@[simp] theorem feed_nil (inner : π) : feed inner [] = (inner, .default) := rfl

theorem feed_singleton (inner : π) (text : Str) : feed inner [text] = StreamTextParser.pushStr inner text := rfl

theorem feed_append (inner : π) (texts more : List Str) :
    feed inner (texts ++ more) =
      ((feed (feed inner texts).1 more).1, (feed inner texts).2.append (feed (feed inner texts).1 more).2) := by
  induction more using List.reverseRecOn with
  | nil => simp
  | append_singleton more text ih =>
      rw [← List.append_assoc]
      conv_lhs => rw [feed, List.foldl_concat, ← feed, ih]
      conv_rhs => rw [feed, List.foldl_concat, ← feed]
      rw [StreamTextChunk.append_assoc]

end Feed

/-! ## One chunk -/

/-- The texts for which bytes are a reason to call the parser of text. -/
def handedOn (bytes : Bytes) : List Str :=
  match decode bytes with
  | ([], .incomplete) => []
  | (text, _) => [text]

theorem flatten_handedOn (bytes : Bytes) : (handedOn bytes).flatten = (decode bytes).1 := by
  unfold handedOn
  split
  · rename_i h
    rw [h]
    rfl
  · rename_i text stop _ h
    rw [h]
    exact List.flatten_singleton

theorem fromUtf8_encode (text : Str) : fromUtf8 (encode text) = .ok text := by
  rw [fromUtf8, decode_encode]

namespace Utf8StreamParser

variable {π ε : Type} [StreamTextParser π ε]

theorem pushBytes_of_hopeless (parser : Utf8StreamParser π) {chunk : Bytes}
    (h : Hopeless (parser.pendingUtf8 ++ chunk)) :
    ∃ validUpTo errorLen, parser.pushBytes chunk = (parser, .error (.invalidUtf8 validUpTo errorLen)) := by
  obtain ⟨len, hlen⟩ := (hopeless_iff _).mp h
  cases hdecode : decode (parser.pendingUtf8 ++ chunk) with
  | mk text stop =>
      rw [hdecode] at hlen
      obtain rfl : stop = .invalid len := hlen
      refine ⟨(encode text).length, len, ?_⟩
      simp [pushBytes, fromUtf8, hdecode]

/-- What is kept back starts a code point, if there is anything. -/
theorem pushBytes_of_not_hopeless {pending chunk : Bytes} (h : ¬ Hopeless (pending ++ chunk)) :
    ∃ rest, pending ++ chunk = encode (handedOn (pending ++ chunk)).flatten ++ rest ∧ (rest = [] ∨ Starts rest) ∧
      ∀ {π ε : Type} [StreamTextParser π ε] (inner : π), (Utf8StreamParser.mk inner pending).pushBytes chunk =
        (⟨(feed inner (handedOn (pending ++ chunk))).1, rest⟩, .ok (feed inner (handedOn (pending ++ chunk))).2) := by
  obtain ⟨rest, hrest, hstop⟩ := exists_rest (pending ++ chunk)
  rw [flatten_handedOn]
  refine ⟨rest, hrest, ?_⟩
  cases hdecode : decode (pending ++ chunk) with
  | mk text stop =>
      rw [hdecode] at hrest hstop
      cases stop with
      | done =>
          obtain rfl : rest = [] := hstop
          refine ⟨.inl rfl, fun inner => ?_⟩
          simp [pushBytes, fromUtf8, handedOn, hdecode, feed_singleton]
      | incomplete =>
          refine ⟨.inr hstop, fun inner => ?_⟩
          cases text with
          | nil =>
              obtain rfl : pending ++ chunk = rest := hrest
              simp [pushBytes, fromUtf8, handedOn, hdecode, encode]
          | cons c text =>
              have hne : ¬ (encode (c :: text)).length = 0 := by
                have hpos := Char.utf8Size_pos c
                simp [encode, Nat.ne_of_gt hpos]
              have htake : (pending ++ chunk).take (encode (c :: text)).length = encode (c :: text) := by
                rw [hrest]
                exact List.take_left
              have hdrop : (pending ++ chunk).drop (encode (c :: text)).length = rest := by
                rw [hrest]
                exact List.drop_left
              have hread : fromUtf8 (pending ++ chunk) = .error ⟨(encode (c :: text)).length, none⟩ := by
                rw [fromUtf8, hdecode]
              simp only [pushBytes, hread, if_neg hne, htake, hdrop, fromUtf8_encode, handedOn, hdecode, feed_singleton]
      | invalid len => exact absurd ((hopeless_iff _).mpr ⟨len, by rw [hdecode]⟩) h

theorem finish_nil (inner : π) : (Utf8StreamParser.mk inner []).finish =
    (⟨(StreamTextParser.finish inner).1, []⟩, .ok (StreamTextParser.finish inner).2) := rfl

theorem finish_of_starts (inner : π) {pending : Bytes} (h : Starts pending) :
    (Utf8StreamParser.mk inner pending).finish = (⟨inner, pending⟩, .error .incompleteUtf8AtEof) := by
  simp [finish, h.1, fromUtf8, decode_of_starts h]

end Utf8StreamParser

/-! ## Chunk after chunk -/

/-- The chunks that were not refused are the texts and what is kept back. -/
structure Keeps (accepted pending : Bytes) (texts : List Str) : Prop where
  eq : accepted = encode texts.flatten ++ pending
  starts : pending = [] ∨ Starts pending

namespace Keeps

variable {accepted pending : Bytes} {texts : List Str}

theorem decode_accepted (h : Keeps accepted pending texts) :
    (decode accepted).1 = texts.flatten ∧ (decode accepted).2 = (decode pending).2 := by
  rw [h.eq, decode_encode_append]
  refine ⟨?_, rfl⟩
  rcases h.starts with rfl | hstarts
  · rw [decode_nil, List.append_nil]
  · rw [decode_of_starts hstarts, List.append_nil]

theorem longest (h : Keeps accepted pending texts) : Longest accepted texts.flatten := by
  rw [← h.decode_accepted.1]
  exact longest_decode accepted

/-- A code point is cut off at the end just when something is kept back. -/
theorem starts_iff (h : Keeps accepted pending texts) :
    Starts pending ↔ ∃ text rest, accepted = encode text ++ rest ∧ Starts rest := by
  constructor
  · intro hstarts
    exact ⟨texts.flatten, pending, h.eq, hstarts⟩
  · rintro ⟨text, rest, haccepted, hrest⟩
    rcases h.starts with rfl | hstarts
    · have hstop := h.decode_accepted.2
      rw [haccepted, decode_encode_append, decode_of_starts hrest, decode_nil] at hstop
      cases hstop
    · exact hstarts

theorem append (h : Keeps accepted pending texts) (chunk : Bytes) {rest : Bytes}
    (hrest : pending ++ chunk = encode (handedOn (pending ++ chunk)).flatten ++ rest) (hstarts : rest = [] ∨ Starts rest) :
    Keeps (accepted ++ chunk) rest (texts ++ handedOn (pending ++ chunk)) := by
  refine ⟨?_, hstarts⟩
  rw [List.flatten_append, encode_append, List.append_assoc, ← hrest, h.eq, List.append_assoc]

variable {π ε : Type} [StreamTextParser π ε]

theorem decodes {inner : π} {streamed : Streamed π ε}
    (h : Keeps streamed.accepted streamed.parser.pendingUtf8 texts)
    (hfed : feed inner texts = (streamed.parser.inner, streamed.output)) : Decodes inner texts streamed := by
  obtain ⟨⟨last, pending⟩, accepted, output⟩ := streamed
  have hpushes (chunk : Bytes) (hnot : ¬ Hopeless (pending ++ chunk)) :
      ∃ out, ((Utf8StreamParser.mk last pending).pushBytes chunk).2 = .ok out := by
    obtain ⟨rest, -, -, hpush⟩ := Utf8StreamParser.pushBytes_of_not_hopeless hnot
    exact ⟨_, congrArg Prod.snd (hpush last)⟩
  refine ⟨hfed, h.longest, h.eq, ?_, fun chunk => ⟨?_, ?_⟩, hpushes, fun chunk hhopeless => ?_, ?_, ?_⟩
  · rcases h.starts with hnil | hstarts
    · rw [hnil]
      exact Nat.zero_le 3
    · exact hstarts.length_le
  · rintro ⟨validUpTo, errorLen, herror⟩
    by_contra hnot
    obtain ⟨out, hout⟩ := hpushes chunk hnot
    rw [hout] at herror
    cases herror
  · intro hhopeless
    obtain ⟨validUpTo, errorLen, hpush⟩ := Utf8StreamParser.pushBytes_of_hopeless ⟨last, pending⟩ hhopeless
    exact ⟨validUpTo, errorLen, congrArg Prod.snd hpush⟩
  · obtain ⟨validUpTo, errorLen, hpush⟩ := Utf8StreamParser.pushBytes_of_hopeless ⟨last, pending⟩ hhopeless
    exact congrArg Prod.fst hpush
  · refine Iff.trans ?_ h.starts_iff
    rcases h.starts with hnil | hstarts
    · obtain rfl : pending = [] := hnil
      simp [Utf8StreamParser.finish_nil, Starts]
    · simp [Utf8StreamParser.finish_of_starts last hstarts, hstarts]
  · intro out hout
    rcases h.starts with hnil | hstarts
    · obtain rfl : pending = [] := hnil
      rw [Utf8StreamParser.finish_nil, Except.ok.injEq] at hout
      have hwhole : output.append out = whole inner texts := by
        rw [whole, hfed, hout]
      refine ⟨hwhole, texts.flatten, h.eq.trans (List.append_nil _), rfl, fun hinvariant => ?_⟩
      rw [hwhole]
      exact hinvariant texts [texts.flatten] List.flatten_singleton.symm
    · rw [Utf8StreamParser.finish_of_starts last hstarts] at hout
      cases hout

end Keeps

section Run

variable {π ε : Type} [StreamTextParser π ε]

theorem Streamed.push_of_hopeless (streamed : Streamed π ε) {chunk : Bytes}
    (h : Hopeless (streamed.parser.pendingUtf8 ++ chunk)) : streamed.push chunk = streamed := by
  obtain ⟨validUpTo, errorLen, hpush⟩ := Utf8StreamParser.pushBytes_of_hopeless streamed.parser h
  rw [Streamed.push, hpush]

theorem stream_concat (inner : π) (chunks : List Bytes) (chunk : Bytes) :
    stream inner (chunks ++ [chunk]) = (stream inner chunks).push chunk := by
  rw [stream, List.foldl_concat, ← stream]

end Run

/-- What was accepted, what is kept back and the texts do not depend on the parser of text. -/
theorem stream_keeps (chunks : List Bytes) : ∃ accepted pending texts, Keeps accepted pending texts ∧
    ∀ {π ε : Type} [StreamTextParser π ε] (inner : π),
      stream inner chunks = ⟨⟨(feed inner texts).1, pending⟩, accepted, (feed inner texts).2⟩ := by
  induction chunks using List.reverseRecOn with
  | nil => exact ⟨[], [], [], ⟨rfl, .inl rfl⟩, fun inner => rfl⟩
  | append_singleton chunks chunk ih =>
      obtain ⟨accepted, pending, texts, hkeeps, hstream⟩ := ih
      by_cases h : Hopeless (pending ++ chunk)
      · refine ⟨accepted, pending, texts, hkeeps, fun inner => ?_⟩
        rw [stream_concat, hstream inner]
        exact Streamed.push_of_hopeless _ h
      · obtain ⟨rest, hrest, hstarts, hpush⟩ := Utf8StreamParser.pushBytes_of_not_hopeless h
        refine ⟨_, rest, _, hkeeps.append chunk hrest hstarts, fun inner => ?_⟩
        rw [stream_concat, hstream inner, Streamed.push, hpush, feed_append]

end Codrex.StreamParser
