import Codrex.Lib.Transition
import Mathlib.Algebra.Group.Nat.Defs
import Mathlib.Data.List.DropRight

/-!
# The output of a process (`core/src/unified_exec/head_tail_buffer.rs`)

A buffer with a limit, which keeps the start and the end of what is written to it.
-/

namespace Codrex.UnifiedExec

open Fallible

abbrev Bytes := List UInt8

structure HeadTailBuffer where
  maxBytes : Nat
  headBudget : Nat
  tailBudget : Nat
  head : List Bytes
  tail : List Bytes
  headBytes : Nat
  tailBytes : Nat
  omittedBytes : Nat
  deriving DecidableEq

namespace HeadTailBuffer

def new (maxBytes : UInt64) : HeadTailBuffer :=
  let headBudget := maxBytes.toNat / 2
  let tailBudget := maxBytes.toNat - headBudget
  ⟨maxBytes.toNat, headBudget, tailBudget, [], [], 0, 0, 0⟩

def retainedBytes (buffer : HeadTailBuffer) : Nat := saturatingAdd buffer.headBytes buffer.tailBytes

def toBytes (buffer : HeadTailBuffer) : Bytes := buffer.head.flatten ++ buffer.tail.flatten

/-- The loop of `trim_tail_to_budget`, with the tail, its length and the count of what is omitted. -/
def trimTail : Nat → List Bytes → Nat → Nat → List Bytes × Nat × Nat
  | _, [], tailBytes, omittedBytes => ([], tailBytes, omittedBytes)
  | excess, front :: rest, tailBytes, omittedBytes =>
      if excess = 0 then (front :: rest, tailBytes, omittedBytes)
      else if front.length ≤ excess then
        trimTail (excess - front.length) rest (tailBytes - front.length) (saturatingAdd omittedBytes front.length)
      else (front.drop excess :: rest, tailBytes - excess, saturatingAdd omittedBytes excess)

def trimTailToBudget (buffer : HeadTailBuffer) : HeadTailBuffer :=
  let (tail, tailBytes, omittedBytes) :=
    trimTail (buffer.tailBytes - buffer.tailBudget) buffer.tail buffer.tailBytes buffer.omittedBytes
  { buffer with tail, tailBytes, omittedBytes }

def pushToTail (buffer : HeadTailBuffer) (chunk : Bytes) : HeadTailBuffer :=
  if buffer.tailBudget = 0 then
    { buffer with omittedBytes := saturatingAdd buffer.omittedBytes chunk.length }
  else if buffer.tailBudget ≤ chunk.length then
    let kept := chunk.drop (chunk.length - buffer.tailBudget)
    let dropped := chunk.length - kept.length
    { buffer with
      omittedBytes := saturatingAdd (saturatingAdd buffer.omittedBytes buffer.tailBytes) dropped
      tail := [kept]
      tailBytes := kept.length }
  else
    trimTailToBudget
      { buffer with
        tailBytes := saturatingAdd buffer.tailBytes chunk.length
        tail := buffer.tail ++ [chunk] }

def pushChunk (buffer : HeadTailBuffer) (chunk : Bytes) : HeadTailBuffer :=
  if buffer.maxBytes = 0 then
    { buffer with omittedBytes := saturatingAdd buffer.omittedBytes chunk.length }
  else if buffer.headBytes < buffer.headBudget then
    let remainingHead := buffer.headBudget - buffer.headBytes
    if chunk.length ≤ remainingHead then
      { buffer with
        headBytes := saturatingAdd buffer.headBytes chunk.length
        head := buffer.head ++ [chunk] }
    else
      let headPart := chunk.take remainingHead
      let tailPart := chunk.drop remainingHead
      let buffer :=
        if headPart.isEmpty then buffer
        else
          { buffer with
            headBytes := saturatingAdd buffer.headBytes headPart.length
            head := buffer.head ++ [headPart] }
      buffer.pushToTail tailPart
  else buffer.pushToTail chunk

def drainChunks (buffer : HeadTailBuffer) : HeadTailBuffer × List Bytes :=
  ({ buffer with head := [], tail := [], headBytes := 0, tailBytes := 0, omittedBytes := 0 }, buffer.head ++ buffer.tail)

end HeadTailBuffer

/-! ## Runs -/

inductive Call
  | pushChunk (chunk : Bytes)
  | drainChunks
  deriving DecidableEq

def step (buffer : HeadTailBuffer) : Call → HeadTailBuffer
  | .pushChunk chunk => buffer.pushChunk chunk
  | .drainChunks => buffer.drainChunks.1

def run (maxBytes : UInt64) (calls : List Call) : HeadTailBuffer := calls.foldl step (.new maxBytes)

end Codrex.UnifiedExec

/-!
## The first and the last bytes
-/

namespace Codrex.UnifiedExec

open Fallible

/-- The text itself if it fits, else its start and its end. -/
def keepEnds (maxBytes : Nat) (bytes : Bytes) : Bytes :=
  if bytes.length ≤ maxBytes then bytes
  else bytes.take (maxBytes / 2) ++ bytes.rtake (maxBytes - maxBytes / 2)

/-- What has been pushed since the buffer was made or drained. -/
def pushed (calls : List Call) : Bytes :=
  calls.foldl (fun bytes call =>
    match call with
    | .pushChunk chunk => bytes ++ chunk
    | .drainChunks => []) []

/-- The buffer shows the ends of the text and counts the rest. -/
structure Shows (maxBytes : Nat) (bytes : Bytes) (buffer : HeadTailBuffer) : Prop where
  toBytes : buffer.toBytes = keepEnds maxBytes bytes
  retained : buffer.retainedBytes = buffer.toBytes.length
  bounded : buffer.retainedBytes ≤ maxBytes
  whole : bytes.length ≤ maxBytes → buffer.omittedBytes = 0
  accounted : bytes.length ≤ usizeMax → buffer.retainedBytes + buffer.omittedBytes = bytes.length

/-- Nothing that can be asked of the buffers tells them apart. -/
structure Alike (buffer other : HeadTailBuffer) : Prop where
  toBytes : buffer.toBytes = other.toBytes
  retained : buffer.retainedBytes = other.retainedBytes
  omitted : buffer.omittedBytes = other.omittedBytes

end Codrex.UnifiedExec

/-!
## The first and the last bytes are kept

The head is a prefix of what was pushed, and the tail is the end of the rest. A push that fills the head is one that
goes into it and one that goes into the tail.
-/

namespace Codrex.UnifiedExec

open Fallible

/-! ## The end of a list -/

theorem length_rtake {α : Type} (l : List α) (n : Nat) : (l.rtake n).length = min n l.length := by
  simp only [List.rtake, List.length_drop]
  omega

theorem rtake_append_of_le {α : Type} (l c : List α) {n : Nat} (h : n ≤ c.length) : (l ++ c).rtake n = c.rtake n := by
  have hindex : (l ++ c).length - n = l.length + (c.length - n) := by
    rw [List.length_append]
    omega
  rw [List.rtake, hindex, List.drop_append, List.rtake]
  simp

theorem rtake_of_length_le {α : Type} {l : List α} {n : Nat} (h : l.length ≤ n) : l.rtake n = l := by
  rw [List.rtake, Nat.sub_eq_zero_of_le h, List.drop_zero]

/-- What is appended needs only the end of what was there. -/
theorem rtake_append {α : Type} (l c : List α) (n : Nat) : (l ++ c).rtake n = (l.rtake n ++ c).rtake n := by
  by_cases h : l.length ≤ n
  · rw [rtake_of_length_le h]
  · have hsplit : l = l.take (l.length - n) ++ l.rtake n := (List.take_append_drop _ _).symm
    have hlong : n ≤ (l.rtake n ++ c).length := by
      rw [List.length_append, length_rtake]
      omega
    conv_lhs => rw [hsplit, List.append_assoc]
    exact rtake_append_of_le _ _ hlong

/-! ## The counters -/

theorem saturatingAdd_add (a b c : Nat) : saturatingAdd (saturatingAdd a b) c = saturatingAdd a (b + c) := by
  unfold saturatingAdd
  omega

theorem saturatingAdd_of_le {a b : Nat} (h : a + b ≤ usizeMax) : saturatingAdd a b = a + b := Nat.min_eq_left h

theorem saturatingAdd_min (a b : Nat) : saturatingAdd (min a usizeMax) b = min (a + b) usizeMax := by
  rw [saturatingAdd_eq]
  omega

/-- The loop drops as many bytes as are in excess. -/
theorem trimTail_eq (tail : List Bytes) (excess tailBytes omittedBytes : Nat) (hexcess : excess ≤ tail.flatten.length)
    (homitted : omittedBytes ≤ usizeMax) :
    ∃ kept, kept.flatten = tail.flatten.drop excess ∧
      HeadTailBuffer.trimTail excess tail tailBytes omittedBytes =
        (kept, tailBytes - excess, saturatingAdd omittedBytes excess) := by
  induction tail generalizing excess tailBytes omittedBytes with
  | nil =>
      obtain rfl : excess = 0 := Nat.le_zero.mp hexcess
      refine ⟨[], rfl, ?_⟩
      rw [HeadTailBuffer.trimTail, Nat.sub_zero, saturatingAdd_of_le homitted]
      rfl
  | cons front rest ih =>
      rw [List.flatten_cons, List.length_append] at hexcess
      rw [HeadTailBuffer.trimTail]
      by_cases hdone : excess = 0
      · refine ⟨front :: rest, ?_, ?_⟩
        · rw [hdone, List.drop_zero]
        · rw [if_pos hdone, hdone, Nat.sub_zero, saturatingAdd_of_le homitted]
          rfl
      · rw [if_neg hdone]
        by_cases hfront : front.length ≤ excess
        · obtain ⟨kept, hkept, heq⟩ := ih (excess - front.length) (tailBytes - front.length)
            (saturatingAdd omittedBytes front.length) (by omega) (Nat.min_le_right _ _)
          refine ⟨kept, ?_, ?_⟩
          · rw [hkept, List.flatten_cons, List.drop_append, List.drop_eq_nil_of_le hfront, List.nil_append]
          · rw [if_pos hfront, heq, saturatingAdd_add, Nat.add_sub_cancel' hfront, Nat.sub_sub,
              Nat.add_sub_cancel' hfront]
        · refine ⟨front.drop excess :: rest, ?_, ?_⟩
          · rw [List.flatten_cons, List.flatten_cons, List.drop_append_of_le_length (Nat.le_of_not_le hfront)]
          · rw [if_neg hfront]

/-! ## The invariant -/

structure Holds (maxBytes : Nat) (bytes : Bytes) (buffer : HeadTailBuffer) : Prop where
  limit : buffer.maxBytes = maxBytes
  headBudget : buffer.headBudget = maxBytes / 2
  tailBudget : buffer.tailBudget = maxBytes - maxBytes / 2
  head : buffer.head.flatten = bytes.take (maxBytes / 2)
  tail : buffer.tail.flatten = (bytes.drop (maxBytes / 2)).rtake (maxBytes - maxBytes / 2)
  headBytes : buffer.headBytes = min (maxBytes / 2) bytes.length
  tailBytes : buffer.tailBytes = min (maxBytes - maxBytes / 2) (bytes.length - maxBytes / 2)
  omitted : buffer.omittedBytes = min (bytes.length - maxBytes) usizeMax

section Steps

variable {maxBytes : Nat} {bytes : Bytes} {buffer : HeadTailBuffer} (hmax : maxBytes ≤ usizeMax)
  (h : Holds maxBytes bytes buffer)

include hmax h

theorem Holds.pushToTail (hfull : maxBytes / 2 ≤ bytes.length) (chunk : Bytes) :
    Holds maxBytes (bytes ++ chunk) (buffer.pushToTail chunk) := by
  have hhead : buffer.head.flatten = (bytes ++ chunk).take (maxBytes / 2) := by
    rw [h.head, List.take_append_of_le_length hfull]
  have hheadBytes : buffer.headBytes = min (maxBytes / 2) (bytes ++ chunk).length := by
    rw [h.headBytes, List.length_append]
    omega
  have hrest : (bytes ++ chunk).drop (maxBytes / 2) = bytes.drop (maxBytes / 2) ++ chunk :=
    List.drop_append_of_le_length hfull
  have htailBytes := h.tailBytes
  have homitted := h.omitted
  have hbudget := h.tailBudget
  unfold HeadTailBuffer.pushToTail
  by_cases hnone : buffer.tailBudget = 0
  · rw [if_pos hnone]
    refine ⟨h.limit, h.headBudget, h.tailBudget, hhead, ?_, hheadBytes, ?_, ?_⟩
    · rw [h.tail, ← hbudget, hnone, List.rtake_zero, List.rtake_zero]
    · rw [htailBytes, ← hbudget, hnone, Nat.zero_min, Nat.zero_min]
    · simp only [homitted, saturatingAdd_min, List.length_append]
      congr 1
      omega
  · rw [if_neg hnone]
    by_cases hlong : buffer.tailBudget ≤ chunk.length
    · rw [if_pos hlong]
      refine ⟨h.limit, h.headBudget, h.tailBudget, hhead, ?_, hheadBytes, ?_, ?_⟩
      · rw [hrest, ← hbudget, rtake_append_of_le _ _ hlong, List.flatten_singleton, List.rtake]
      · simp only [List.length_drop, List.length_append]
        omega
      · simp only [homitted, htailBytes, saturatingAdd_min, List.length_drop, List.length_append]
        congr 1
        clear hheadBytes homitted htailBytes
        omega
    · rw [if_neg hlong]
      have hadded : saturatingAdd buffer.tailBytes chunk.length = buffer.tailBytes + chunk.length := by
        apply saturatingAdd_of_le
        omega
      have hflatten : (buffer.tail ++ [chunk]).flatten =
          (bytes.drop (maxBytes / 2)).rtake (maxBytes - maxBytes / 2) ++ chunk := by
        rw [List.flatten_append, List.flatten_singleton, h.tail]
      have hlength : (buffer.tail ++ [chunk]).flatten.length = buffer.tailBytes + chunk.length := by
        rw [hflatten, List.length_append, length_rtake, List.length_drop, htailBytes]
      obtain ⟨kept, hkept, heq⟩ := trimTail_eq (buffer.tail ++ [chunk])
        (buffer.tailBytes + chunk.length - buffer.tailBudget) (buffer.tailBytes + chunk.length)
        buffer.omittedBytes (by rw [hlength]; exact Nat.sub_le _ _) (by rw [homitted]; exact Nat.min_le_right _ _)
      unfold HeadTailBuffer.trimTailToBudget
      simp only [hadded, heq]
      refine ⟨h.limit, h.headBudget, h.tailBudget, hhead, ?_, hheadBytes, ?_, ?_⟩
      · rw [hrest, rtake_append, List.rtake, ← hflatten, hlength, ← hbudget]
        exact hkept
      · simp only [List.length_append]
        clear hheadBytes homitted hadded hlength heq
        omega
      · simp only [homitted, htailBytes, saturatingAdd_min, List.length_append]
        congr 1
        clear hheadBytes homitted htailBytes hadded hflatten hlength
        omega

theorem Holds.pushToHead (chunk : Bytes) (hfits : bytes.length + chunk.length ≤ maxBytes / 2) :
    Holds maxBytes (bytes ++ chunk)
      { buffer with
        headBytes := saturatingAdd buffer.headBytes chunk.length
        head := buffer.head ++ [chunk] } := by
  have hheadBytes := h.headBytes
  have htailBytes := h.tailBytes
  have homitted := h.omitted
  have hlength : (bytes ++ chunk).length ≤ maxBytes / 2 := by
    rw [List.length_append]
    exact hfits
  refine ⟨h.limit, h.headBudget, h.tailBudget, ?_, ?_, ?_, ?_, ?_⟩
  · rw [List.flatten_append, List.flatten_singleton, h.head, List.take_of_length_le hlength,
      List.take_of_length_le (by omega)]
  · rw [h.tail, List.drop_of_length_le hlength, List.drop_of_length_le (by omega)]
  · have hlow : bytes.length ≤ maxBytes / 2 := Nat.le_trans (Nat.le_add_right _ _) hfits
    simp only [hheadBytes, List.length_append, Nat.min_eq_right hlow, Nat.min_eq_right hfits]
    exact saturatingAdd_of_le (by omega)
  · simp only [htailBytes, List.length_append]
    omega
  · simp only [homitted, List.length_append]
    omega

theorem Holds.pushChunk (chunk : Bytes) : Holds maxBytes (bytes ++ chunk) (buffer.pushChunk chunk) := by
  have hheadBytes := h.headBytes
  have hbudget := h.headBudget
  unfold HeadTailBuffer.pushChunk
  by_cases hzero : buffer.maxBytes = 0
  · rw [if_pos hzero]
    obtain rfl : maxBytes = 0 := h.limit.symm.trans hzero
    refine ⟨h.limit, h.headBudget, h.tailBudget, ?_, ?_, ?_, ?_, ?_⟩
    · simpa using h.head
    · simpa using h.tail
    · simpa using h.headBytes
    · simpa using h.tailBytes
    · simp only [h.omitted, saturatingAdd_eq, List.length_append]
      omega
  · rw [if_neg hzero]
    by_cases hroom : buffer.headBytes < buffer.headBudget
    · rw [if_pos hroom]
      dsimp only
      by_cases hfits : chunk.length ≤ buffer.headBudget - buffer.headBytes
      · rw [if_pos hfits]
        exact h.pushToHead hmax chunk (by omega)
      · have hpart : (chunk.take (buffer.headBudget - buffer.headBytes)).length = maxBytes / 2 - bytes.length := by
          rw [List.length_take]
          omega
        have hnonempty : (chunk.take (buffer.headBudget - buffer.headBytes)).isEmpty = false := by
          rw [← Bool.not_eq_true, List.isEmpty_iff_length_eq_zero]
          omega
        rw [if_neg hfits, hnonempty]
        have hfilled := h.pushToHead hmax (chunk.take (buffer.headBudget - buffer.headBytes)) (by omega)
        have hpushed := hfilled.pushToTail hmax (by rw [List.length_append]; omega)
          (chunk.drop (buffer.headBudget - buffer.headBytes))
        rw [List.append_assoc, List.take_append_drop] at hpushed
        exact hpushed
    · rw [if_neg hroom]
      exact h.pushToTail hmax (by omega) chunk

end Steps

/-! ## Runs -/

theorem holds_new (maxBytes : UInt64) : Holds maxBytes.toNat [] (.new maxBytes) := by
  constructor <;> simp [HeadTailBuffer.new]

theorem Holds.drainChunks {maxBytes : Nat} {bytes : Bytes} {buffer : HeadTailBuffer}
    (h : Holds maxBytes bytes buffer) : Holds maxBytes [] buffer.drainChunks.1 := by
  refine ⟨h.limit, h.headBudget, h.tailBudget, ?_, ?_, ?_, ?_, ?_⟩
  all_goals simp [HeadTailBuffer.drainChunks]

theorem holds_run (maxBytes : UInt64) (calls : List Call) : Holds maxBytes.toNat (pushed calls) (run maxBytes calls) := by
  have hmax : maxBytes.toNat ≤ usizeMax := Nat.le_of_lt_succ maxBytes.toNat_lt
  induction calls using List.reverseRecOn with
  | nil => exact holds_new maxBytes
  | append_singleton calls call ih =>
      unfold run pushed at *
      rw [List.foldl_append, List.foldl_append]
      cases call with
      | pushChunk chunk => exact ih.pushChunk hmax chunk
      | drainChunks => exact ih.drainChunks

section Views

variable {maxBytes : Nat} {bytes : Bytes} {buffer : HeadTailBuffer} (h : Holds maxBytes bytes buffer)

include h

theorem Holds.toBytes_eq : buffer.toBytes = keepEnds maxBytes bytes := by
  unfold HeadTailBuffer.toBytes keepEnds
  rw [h.head, h.tail]
  split
  · rw [rtake_of_length_le (by rw [List.length_drop]; omega), List.take_append_drop]
  · have hrest : maxBytes - maxBytes / 2 ≤ (bytes.drop (maxBytes / 2)).length := by
      rw [List.length_drop]
      omega
    have hend := rtake_append_of_le (bytes.take (maxBytes / 2)) _ hrest
    rw [List.take_append_drop] at hend
    rw [hend]

theorem Holds.retainedBytes_eq (hmax : maxBytes ≤ usizeMax) : buffer.retainedBytes = min maxBytes bytes.length := by
  unfold HeadTailBuffer.retainedBytes
  rw [saturatingAdd_eq]
  rw [h.headBytes, h.tailBytes]
  omega

end Views

theorem length_keepEnds (maxBytes : Nat) (bytes : Bytes) :
    (keepEnds maxBytes bytes).length = min maxBytes bytes.length := by
  unfold keepEnds
  split
  · omega
  · rw [List.length_append, List.length_take, length_rtake]
    omega

/-- After any calls the buffer shows the first and the last bytes of what was pushed since the last drain and has
counted the others, whatever the chunks were. -/
theorem run_shows (maxBytes : UInt64) (calls : List Call) :
    Shows maxBytes.toNat (pushed calls) (run maxBytes calls) ∧
      ∀ others, pushed others = pushed calls → Alike (run maxBytes others) (run maxBytes calls) := by
  have hmax : maxBytes.toNat ≤ usizeMax := Nat.le_of_lt_succ maxBytes.toNat_lt
  have h := holds_run maxBytes calls
  have hretained := h.retainedBytes_eq hmax
  have homitted := h.omitted
  constructor
  · refine ⟨h.toBytes_eq, ?_, ?_, ?_, ?_⟩
    · rw [hretained, h.toBytes_eq, length_keepEnds]
    · omega
    · omega
    · unfold HeadTailBuffer.retainedBytes at *
      omega
  · intro others hothers
    have hother := holds_run maxBytes others
    rw [hothers] at hother
    refine ⟨?_, ?_, ?_⟩
    · rw [hother.toBytes_eq, h.toBytes_eq]
    · rw [hother.retainedBytes_eq hmax, hretained]
    · rw [hother.omitted, homitted]

example : (run 5 [.pushChunk [1, 2, 3], .pushChunk [], .pushChunk [4, 5, 6, 7]]).toBytes = [1, 2, 5, 6, 7] := by decide

end Codrex.UnifiedExec
