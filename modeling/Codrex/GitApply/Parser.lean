import Codrex.Lib.Text
import Mathlib.Data.Finset.Sort
import Mathlib.Data.Finset.Max
import Mathlib.Data.List.Lex
import Mathlib.Data.Char

/-!
# The output of `git apply` (`git-utils/src/apply.rs`)

A `BTreeSet` of paths is a `Finset`, whose order is that of the characters.
-/

namespace Codrex.GitApply

open Text

/-! ## Paths -/

def toDigit (c : Char) : Nat := c.toNat - '0'.toNat

def isOctal (c : Char) : Bool := '0' ≤ c && c ≤ '7'

/-- At most `n` further octal digits, and what stands behind them. -/
def octal : Nat → Nat → Str → Nat × Str
  | n + 1, value, c :: rest => if isOctal c then octal n (value * 8 + toDigit c) rest else (value, c :: rest)
  | _, value, rest => (value, rest)

theorem length_octal_le (n value : Nat) (rest : Str) : (octal n value rest).2.length ≤ rest.length := by
  fun_induction octal n value rest with
  | case1 n value c rest hoctal ih => exact ih.trans (Nat.le_succ _)
  | case2 => exact Nat.le_refl _
  | case3 => exact Nat.le_refl _

/-- `char::from_u32`, where there is one. -/
def fromU32 (value : Nat) : Str := if value.isValidChar then [Char.ofNat value] else []

def unescapeCString : Str → Str
  | [] => []
  | ['\\'] => ['\\']
  | '\\' :: 'n' :: rest => '\n' :: unescapeCString rest
  | '\\' :: 'r' :: rest => '\r' :: unescapeCString rest
  | '\\' :: 't' :: rest => '\t' :: unescapeCString rest
  | '\\' :: 'b' :: rest => '\x08' :: unescapeCString rest
  | '\\' :: 'f' :: rest => '\x0c' :: unescapeCString rest
  | '\\' :: 'a' :: rest => '\x07' :: unescapeCString rest
  | '\\' :: 'v' :: rest => '\x0b' :: unescapeCString rest
  | '\\' :: next :: rest =>
      if isOctal next then
        fromU32 (octal 2 (toDigit next) rest).1 ++ unescapeCString (octal 2 (toDigit next) rest).2
      else next :: unescapeCString rest
  | c :: rest => c :: unescapeCString rest
termination_by input => input.length
decreasing_by
  all_goals simp only [List.length_cons]
  all_goals first | omega | exact Nat.lt_succ_of_lt (Nat.lt_succ_of_le (length_octal_le _ _ _))

/-- The path that `add` inserts. -/
def pathOf (raw : Str) : Option Str :=
  let trimmed := trim raw
  match trimmed.head?, trimmed.getLast? with
  | some first, some last =>
      let unquoted :=
        if (first = '"' ∨ first = '\'') ∧ last = first ∧ 2 ≤ byteLen trimmed then
          unescapeCString trimmed.tail.dropLast
        else trimmed
      if unquoted = [] then none else some unquoted
  | _, _ => none

def add (set : Finset Str) (raw : Str) : Finset Str :=
  match pathOf raw with
  | none => set
  | some path => insert path set

/-! ## Lines -/

def appliedClean := "^Applied patch(?: to)?\\s+(?P<path>.+?)\\s+cleanly\\.?$"
def appliedConflicts := "^Applied patch(?: to)?\\s+(?P<path>.+?)\\s+with conflicts\\.?$"
def applyingWithRejects := "^Applying patch\\s+(?P<path>.+?)\\s+with\\s+\\d+\\s+rejects?\\.\x7b0,3\x7d$"
def checkingPatch := "^Checking patch\\s+(?P<path>.+?)\\.\\.\\.$"
def unmergedLine := "^U\\s+(?P<path>.+)$"
def patchFailed := "^error:\\s+patch failed:\\s+(?P<path>.+?)(?::\\d+)?(?:\\s|$)"
def doesNotApply := "^error:\\s+(?P<path>.+?):\\s+patch does not apply$"
def threeWayStart := "^(?:Performing three-way merge|Falling back to three-way merge)\\.\\.\\.$"
def threeWayFailed := "^Failed to perform three-way merge\\.\\.\\.$"
def fallbackDirect := "^Falling back to direct application\\.\\.\\.$"
def lacksBlob :=
  "^(?:error: )?repository lacks the necessary blob to (?:perform|fall back on) 3-?way merge\\.?$"
def indexMismatch := "^error:\\s+(?P<path>.+?):\\s+does not match index\\b"
def notInIndex := "^error:\\s+(?P<path>.+?):\\s+does not exist in index\\b"
def alreadyExistsWt := "^error:\\s+(?P<path>.+?)\\s+already exists in (?:the )?working directory\\b"
def fileExists := "^error:\\s+patch failed:\\s+(?P<path>.+?)\\s+File exists"
def renamedDeleted := "^error:\\s+path\\s+(?P<path>.+?)\\s+has been renamed\\/deleted"
def cannotApplyBinary :=
  "^error:\\s+cannot apply binary patch to\\s+['\\\"]?(?P<path>.+?)['\\\"]?\\s+without full index line$"
def binaryDoesNotApply := "^error:\\s+binary patch does not apply to\\s+['\\\"]?(?P<path>.+?)['\\\"]?$"
def binaryIncorrectResult :=
  "^error:\\s+binary patch to\\s+['\\\"]?(?P<path>.+?)['\\\"]?\\s+creates incorrect result\\b"
def cannotReadCurrent := "^error:\\s+cannot read the current contents of\\s+['\\\"]?(?P<path>.+?)['\\\"]?$"
def skippedPatch := "^Skipped patch\\s+['\\\"]?(?P<path>.+?)['\\\"]\\.$"
def cannotMergeBinaryWarn :=
  "^warning:\\s*Cannot merge binary files:\\s+(?P<path>.+?)\\s+\\(ours\\s+vs\\.\\s+theirs\\)"

/-- `Regex::captures` of a pattern without regard to case, as the group `path` of what it finds. -/
abbrev Captures := String → Str → Option (Option Str)

/-- What a line says of its path. A `hint` comes before the outcome. -/
inductive Kind
  | checking | applied | conflicted | hint | skipped
  deriving DecidableEq

inductive Status
  | about (kind : Kind) (path : Option Str)
  | narration
  | threeWayFailed
  deriving DecidableEq

/-- The first branch of the loop that takes the line. -/
def classify (captures : Captures) (line : Str) : Option Status :=
  (captures checkingPatch line).map (.about .checking) <|>
  (captures appliedClean line).map (.about .applied) <|>
  (captures appliedConflicts line).map (.about .conflicted) <|>
  (captures applyingWithRejects line).map (.about .conflicted) <|>
  (captures unmergedLine line).map (.about .conflicted) <|>
  (captures patchFailed line <|> captures doesNotApply line).map (.about .hint) <|>
  (captures threeWayStart line <|> captures fallbackDirect line).map (fun _ => .narration) <|>
  (captures threeWayFailed line <|> captures lacksBlob line).map (fun _ => .threeWayFailed) <|>
  (captures indexMismatch line <|> captures notInIndex line <|> captures alreadyExistsWt line <|>
    captures fileExists line <|> captures renamedDeleted line <|> captures cannotApplyBinary line <|>
    captures binaryDoesNotApply line <|> captures binaryIncorrectResult line <|> captures cannotReadCurrent line <|>
    captures skippedPatch line).map (.about .skipped) <|>
  (captures cannotMergeBinaryWarn line).map (.about .conflicted)

/-! ## The loop -/

inductive Group
  | applied | skipped | conflicted
  deriving DecidableEq

structure Parse where
  applied : Finset Str
  skipped : Finset Str
  conflicted : Finset Str
  lastSeenPath : Option Str

namespace Parse

def new : Parse := ⟨∅, ∅, ∅, none⟩

def get (parse : Parse) : Group → Finset Str
  | .applied => parse.applied
  | .skipped => parse.skipped
  | .conflicted => parse.conflicted

def mapSets (parse : Parse) (f : Group → Finset Str → Finset Str) : Parse :=
  { parse with
    applied := f .applied parse.applied
    skipped := f .skipped parse.skipped
    conflicted := f .conflicted parse.conflicted }

def addTo (parse : Parse) (group : Group) (raw : Str) : Parse :=
  parse.mapSets fun other set => if other = group then add set raw else set

def removeFromOthers (parse : Parse) (group : Group) (path : Str) : Parse :=
  parse.mapSets fun other set => if other = group then set else set.erase path

/-- `iter().next_back()`. -/
def nextBack (set : Finset Str) : Option Str := set.max

/-- A path is inserted, and the last one of its set is removed from the other sets. -/
def moveTo (parse : Parse) (group : Group) (raw : Str) : Parse :=
  let parse := parse.addTo group raw
  match nextBack (parse.get group) with
  | none => parse
  | some path => { parse.removeFromOthers group path with lastSeenPath := some path }

def step (parse : Parse) : Status → Parse
  | .about _ none => parse
  | .about .checking (some raw) => { parse with lastSeenPath := some raw }
  | .about .applied (some raw) => parse.moveTo .applied raw
  | .about .conflicted (some raw) => parse.moveTo .conflicted raw
  | .about .hint (some raw) => { parse.addTo .skipped raw with lastSeenPath := some raw }
  | .about .skipped (some raw) => parse.moveTo .skipped raw
  | .narration => parse
  | .threeWayFailed =>
      match parse.lastSeenPath with
      | none => parse
      | some path => (parse.addTo .skipped path).removeFromOthers .skipped path

/-- Conflicts before applied before skipped. -/
def finalPrecedence (parse : Parse) : Parse :=
  let applied := parse.applied \ parse.conflicted
  { parse with applied, skipped := (parse.skipped \ parse.conflicted) \ applied }

end Parse

def statusOf (captures : Captures) (rawLine : Str) : Option Status :=
  let line := trim rawLine
  if line = [] then none else classify captures line

def parseLines (captures : Captures) (lines : List Str) : Parse :=
  lines.foldl (fun parse rawLine => ((statusOf captures rawLine).map parse.step).getD parse) .new

/-- Applied, skipped and conflicted paths. -/
def outputOf (captures : Captures) (lines : List Str) : List Str × List Str × List Str :=
  let parse := (parseLines captures lines).finalPrecedence
  (parse.applied.sort, parse.skipped.sort, parse.conflicted.sort)

def parseGitApplyOutput (captures : Captures) (stdout stderr : Str) : List Str × List Str × List Str :=
  outputOf captures (lines (joinLines ([stdout, stderr].filter (· ≠ []))))

end Codrex.GitApply
