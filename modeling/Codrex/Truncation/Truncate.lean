import Codrex.History.Normalize
import Codrex.Lib.Transition

/-!
# Truncated output (`utils/string/src/truncate.rs`, `utils/output-truncation/src/lib.rs`)
-/

namespace Codrex.Truncation

open Text History Fallible

/-! ## The middle of a text -/

def approxBytesPerToken : Nat := 4

def approxTokenCount (text : Str) : Nat := (byteLen text + (approxBytesPerToken - 1)) / approxBytesPerToken

/-- A budget may be any number, unlike the length of a text. -/
def approxBytesForTokens (tokens : Nat) : Nat := min (tokens * approxBytesPerToken) usizeMax

def approxTokensFromByteCount (bytes : Nat) : Nat := (bytes + (approxBytesPerToken - 1)) / approxBytesPerToken

def formatTruncationMarker (useTokens : Bool) (removedCount : Nat) : Str :=
  if useTokens then "…".toList ++ (Nat.repr removedCount).toList ++ " tokens truncated…".toList
  else "…".toList ++ (Nat.repr removedCount).toList ++ " chars truncated…".toList

def removedUnits (useTokens : Bool) (removedBytes removedChars : Nat) : Nat :=
  if useTokens then approxTokensFromByteCount removedBytes else removedChars

def splitBudget (budget : Nat) : Nat × Nat :=
  let left := budget / 2
  (left, budget - left)

structure SplitState where
  prefixEnd : Nat
  suffixStart : Nat
  removedChars : Nat
  suffixStarted : Bool
  deriving DecidableEq

def splitChar (beginningBytes tailStartTarget : Nat) (state : SplitState) (idx : Nat) (ch : Char) : SplitState :=
  let charEnd := idx + ch.utf8Size
  if charEnd ≤ beginningBytes then { state with prefixEnd := charEnd }
  else if tailStartTarget ≤ idx then
    if !state.suffixStarted then { state with suffixStart := idx, suffixStarted := true } else state
  else { state with removedChars := state.removedChars + 1 }

/-- The loop over `char_indices`, with the rest of the text at `idx`. -/
def splitLoop (beginningBytes tailStartTarget : Nat) : SplitState → Nat → Str → SplitState
  | state, _, [] => state
  | state, idx, ch :: rest =>
      splitLoop beginningBytes tailStartTarget (splitChar beginningBytes tailStartTarget state idx ch)
        (idx + ch.utf8Size) rest

/-- The text is cut in front of characters only. -/
def splitString (s : Str) (beginningBytes endBytes : Nat) : Nat × Str × Str :=
  if s = [] then (0, [], [])
  else
    let len := byteLen s
    let tailStartTarget := len - endBytes
    let state := splitLoop beginningBytes tailStartTarget ⟨0, len, 0, false⟩ 0 s
    let suffixStart := if state.suffixStart < state.prefixEnd then state.prefixEnd else state.suffixStart
    (state.removedChars, fittingChars s state.prefixEnd, dropBytes s suffixStart)

def assembleTruncatedOutput (before after marker : Str) : Str := before ++ marker ++ after

def truncateWithByteEstimate (s : Str) (maxBytes : Nat) (useTokens : Bool) : Str :=
  if s = [] then []
  else
    let totalChars := s.length
    if maxBytes = 0 then formatTruncationMarker useTokens (removedUnits useTokens (byteLen s) totalChars)
    else if byteLen s ≤ maxBytes then s
    else
      let totalBytes := byteLen s
      let (leftBudget, rightBudget) := splitBudget maxBytes
      let (removedChars, left, right) := splitString s leftBudget rightBudget
      let marker := formatTruncationMarker useTokens (removedUnits useTokens (totalBytes - maxBytes) removedChars)
      assembleTruncatedOutput left right marker

def truncateMiddleChars (s : Str) (maxBytes : Nat) : Str := truncateWithByteEstimate s maxBytes false

def truncateMiddleWithTokenBudget (s : Str) (maxTokens : Nat) : Str × Option Nat :=
  if s = [] then ([], none)
  else if 0 < maxTokens ∧ byteLen s ≤ approxBytesForTokens maxTokens then (s, none)
  else
    let truncated := truncateWithByteEstimate s (approxBytesForTokens maxTokens) true
    let totalTokens := approxTokenCount s
    if truncated = s then (truncated, none) else (truncated, some totalTokens)

/-! ## The items of a tool output -/

inductive TruncationPolicy
  | bytes (limit : Nat)
  | tokens (limit : Nat)
  deriving DecidableEq

namespace TruncationPolicy

def tokenBudget : TruncationPolicy → Nat
  | bytes limit => approxTokensFromByteCount limit
  | tokens limit => limit

def byteBudget : TruncationPolicy → Nat
  | bytes limit => limit
  | tokens limit => approxBytesForTokens limit

end TruncationPolicy

def truncateText (content : Str) : TruncationPolicy → Str
  | .bytes bytes => truncateMiddleChars content bytes
  | .tokens tokens => (truncateMiddleWithTokenBudget content tokens).1

structure ItemsState where
  out : List FunctionCallOutputContentItem
  remainingBudget : Nat
  omittedTextItems : Nat
  deriving DecidableEq

def textCost (policy : TruncationPolicy) (text : Str) : Nat :=
  match policy with
  | .bytes _ => byteLen text
  | .tokens _ => approxTokenCount text

def snippetPolicy (policy : TruncationPolicy) (remainingBudget : Nat) : TruncationPolicy :=
  match policy with
  | .bytes _ => .bytes remainingBudget
  | .tokens _ => .tokens remainingBudget

def truncateItem (policy : TruncationPolicy) (state : ItemsState) : FunctionCallOutputContentItem → ItemsState
  | .inputText text =>
      if state.remainingBudget = 0 then { state with omittedTextItems := state.omittedTextItems + 1 }
      else
        let cost := textCost policy text
        if cost ≤ state.remainingBudget then
          { state with out := state.out ++ [.inputText text], remainingBudget := state.remainingBudget - cost }
        else
          let snippet := truncateText text (snippetPolicy policy state.remainingBudget)
          if snippet.isEmpty then ⟨state.out, 0, state.omittedTextItems + 1⟩
          else ⟨state.out ++ [.inputText snippet], 0, state.omittedTextItems⟩
  | .inputImage imageUrl detail => { state with out := state.out ++ [.inputImage imageUrl detail] }

def truncateFunctionOutputItemsWithPolicy (items : List FunctionCallOutputContentItem) (policy : TruncationPolicy) :
    List FunctionCallOutputContentItem :=
  let remainingBudget := match policy with
    | .bytes _ => policy.byteBudget
    | .tokens _ => policy.tokenBudget
  let state := items.foldl (truncateItem policy) ⟨[], remainingBudget, 0⟩
  if 0 < state.omittedTextItems then
    state.out ++
      [.inputText ("[omitted ".toList ++ (Nat.repr state.omittedTextItems).toList ++ " text items ...]".toList)]
  else state.out

end Codrex.Truncation

/-!
## What truncation leaves
-/

namespace Codrex.Truncation

open Text History

/-! ## The middle of a text -/

structure LongestStart (s : Str) (limit : Nat) (start : Str) : Prop where
  starts : start <+: s
  fits : byteLen start ≤ limit
  longest : ∀ other, other <+: s → byteLen other ≤ limit → other <+: start

structure LongestEnd (s : Str) (limit : Nat) (ending : Str) : Prop where
  ends : ending <:+ s
  fits : byteLen ending ≤ limit
  longest : ∀ other, other <:+ s → byteLen other ≤ limit → other <:+ ending

/-- The text in three parts. The outer ones have the halves of the budget. -/
structure MiddleOut (s : Str) (budget : Nat) (before middle after : Str) : Prop where
  parts : s = before ++ middle ++ after
  before : LongestStart s (budget / 2) before
  after : LongestEnd s (budget - budget / 2) after

def charsMarker (removed : Nat) : Str := "…".toList ++ (Nat.repr removed).toList ++ " chars truncated…".toList

/-! ## The items of a tool output -/

def isText : FunctionCallOutputContentItem → Bool
  | .inputText _ => true
  | .inputImage _ _ => false

def textCount (items : List FunctionCallOutputContentItem) : Nat := items.countP isText

def images (items : List FunctionCallOutputContentItem) : List FunctionCallOutputContentItem :=
  items.filter fun item => !isText item

def itemCost (policy : TruncationPolicy) : FunctionCallOutputContentItem → Nat
  | .inputText text => textCost policy text
  | .inputImage _ _ => 0

def spent (policy : TruncationPolicy) (items : List FunctionCallOutputContentItem) : Nat :=
  (items.map (itemCost policy)).sum

def budget : TruncationPolicy → Nat
  | .bytes limit => limit
  | .tokens limit => limit

/-- Nothing is said when no text was dropped. -/
def report (dropped : Nat) : List FunctionCallOutputContentItem :=
  if dropped = 0 then []
  else [.inputText ("[omitted ".toList ++ (Nat.repr dropped).toList ++ " text items ...]".toList)]

/-- The budget holds all of the items, and some of it is left in front of every text, be it free. -/
structure Afforded (policy : TruncationPolicy) (kept : List FunctionCallOutputContentItem) : Prop where
  within : spent policy kept ≤ budget policy
  left : ∀ front text rest, kept = front ++ .inputText text :: rest → spent policy front < budget policy

/-- The items are kept up to the first text that finds no budget left, which is dropped, or too little, which is cut.
All texts behind it are dropped. -/
inductive Keeps (policy : TruncationPolicy) :
    List FunctionCallOutputContentItem → List FunctionCallOutputContentItem → Prop
  | all {items} : Afforded policy items → Keeps policy items items
  | usedUp {kept text rest} : Afforded policy kept → spent policy kept = budget policy →
      Keeps policy (kept ++ .inputText text :: rest) (kept ++ images rest ++ report (textCount rest + 1))
  | cut {kept text rest} : Afforded policy kept → spent policy kept < budget policy →
      budget policy < spent policy kept + textCost policy text →
      Keeps policy (kept ++ .inputText text :: rest)
        (kept ++ .inputText (truncateText text (snippetPolicy policy (budget policy - spent policy kept))) ::
          images rest ++ report (textCount rest))

end Codrex.Truncation
