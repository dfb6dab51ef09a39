import Codrex.Lib.UnixPath

/-!
# Commands that run without asking (`shell-command/src/command_safety/is_safe_command.rs`)

With the scanner of git's global options, `is_dangerous_command.rs`.
-/

namespace Codrex.ShellCommand

open Text

/-- What the code is compiled for, and the `Path::file_name` there, where it is text. -/
structure Target where
  windows : Bool
  linux : Bool
  fileName : Str → Option Str

def linuxTarget : Target := ⟨false, true, UnixPath.fileName⟩

def executableNameLookupKey (target : Target) (raw : Str) : Option Str :=
  (target.fileName raw).map fun name =>
    if target.windows then
      let name := toAsciiLowercase name
      (([".exe", ".cmd", ".bat", ".com"].map String.toList).findSome? fun suffix => stripSuffix suffix name).getD name
    else name

/-! ## Global options of git -/

def gitGlobalOptionsWithValue : List Str :=
  ["-C", "-c", "--config-env", "--exec-path", "--git-dir", "--namespace", "--super-prefix", "--work-tree"].map
    String.toList

def isGitGlobalOptionWithValue (arg : Str) : Bool := arg ∈ gitGlobalOptionsWithValue

def gitInlineValues : List Str :=
  ["--config-env=", "--exec-path=", "--git-dir=", "--namespace=", "--super-prefix=", "--work-tree="].map String.toList

def isGitGlobalOptionWithInlineValue (arg : Str) : Bool :=
  gitInlineValues.any (·.isPrefixOf arg) ||
    (("-C".toList.isPrefixOf arg || "-c".toList.isPrefixOf arg) && 2 < byteLen arg)

def gitGlobalOptionsThatPrompt : List Str :=
  ["-c", "--config-env", "--exec-path", "--git-dir", "--namespace", "--super-prefix", "--work-tree"].map String.toList

def gitGlobalOptionRequiresPrompt (arg : Str) : Bool :=
  arg ∈ gitGlobalOptionsThatPrompt || ("-c".toList.isPrefixOf arg && 2 < byteLen arg) ||
    gitInlineValues.any (·.isPrefixOf arg)

def findGitSubcommandFrom (subcommands : List Str) : (skipNext : Bool) → (idx : Nat) → List Str → Option (Nat × Str)
  | _, _, [] => none
  | true, idx, _ :: args => findGitSubcommandFrom subcommands false (idx + 1) args
  | false, idx, arg :: args =>
      if isGitGlobalOptionWithInlineValue arg then findGitSubcommandFrom subcommands false (idx + 1) args
      else if isGitGlobalOptionWithValue arg then findGitSubcommandFrom subcommands true (idx + 1) args
      else if arg = "--".toList ∨ "-".toList <+: arg then findGitSubcommandFrom subcommands false (idx + 1) args
      else if arg ∈ subcommands then some (idx, arg)
      else none

def findGitSubcommand (target : Target) (command subcommands : List Str) : Option (Nat × Str) :=
  match command with
  | [] => none
  | cmd0 :: args =>
      if executableNameLookupKey target cmd0 ≠ some "git".toList then none
      else findGitSubcommandFrom subcommands false 1 args

/-! ## Safe commands -/

def readOnlyBranchFlags : List Str :=
  ["--list", "-l", "--show-current", "-a", "--all", "-r", "--remotes", "-v", "-vv", "--verbose"].map String.toList

def gitBranchArgsAreReadOnly : (sawReadOnlyFlag : Bool) → List Str → Bool
  | sawReadOnlyFlag, [] => sawReadOnlyFlag
  | _, arg :: args =>
      if arg ∈ readOnlyBranchFlags ∨ "--format=".toList <+: arg then gitBranchArgsAreReadOnly true args else false

def gitBranchIsReadOnly (branchArgs : List Str) : Bool :=
  if branchArgs = [] then true else gitBranchArgsAreReadOnly false branchArgs

def gitHasUnsafeGlobalOption (command : List Str) : Bool := command.tail.any gitGlobalOptionRequiresPrompt

def unsafeGitFlags : List Str :=
  ["--output", "--ext-diff", "--textconv", "--exec", "--paginate"].map String.toList

def isUnsafeGitArg (arg : Str) : Bool :=
  arg ∈ unsafeGitFlags || "--output=".toList.isPrefixOf arg || "--exec=".toList.isPrefixOf arg

def gitSubcommandArgsAreReadOnly (args : List Str) : Bool := !args.any isUnsafeGitArg

def safeGitSubcommands : List Str := ["status", "log", "diff", "show", "branch"].map String.toList

def isSafeGitCommand (target : Target) (command : List Str) : Bool :=
  if gitHasUnsafeGlobalOption command then false
  else
    match findGitSubcommand target command safeGitSubcommands with
    | none => false
    | some (subcommandIdx, subcommand) =>
        let subcommandArgs := command.drop (subcommandIdx + 1)
        if subcommand = "branch".toList then
          gitSubcommandArgsAreReadOnly subcommandArgs && gitBranchIsReadOnly subcommandArgs
        else gitSubcommandArgsAreReadOnly subcommandArgs

def unsafeBase64Options : List Str := ["-o", "--output"].map String.toList

def isUnsafeBase64Arg (arg : Str) : Bool :=
  arg ∈ unsafeBase64Options || "--output=".toList.isPrefixOf arg || ("-o".toList.isPrefixOf arg && arg ≠ "-o".toList)

def unsafeFindOptions : List Str :=
  ["-exec", "-execdir", "-ok", "-okdir", "-delete", "-fls", "-fprint", "-fprint0", "-fprintf"].map String.toList

def unsafeRipgrepOptionsWithArgs : List Str := ["--pre", "--hostname-bin"].map String.toList

def unsafeRipgrepOptionsWithoutArgs : List Str := ["--search-zip", "-z"].map String.toList

def isUnsafeRipgrepArg (arg : Str) : Bool :=
  arg ∈ unsafeRipgrepOptionsWithoutArgs ||
    unsafeRipgrepOptionsWithArgs.any fun opt => arg = opt || (opt ++ "=".toList).isPrefixOf arg

def isValidSedNArg (arg : Option Str) : Bool :=
  let isNumber (num : Str) : Bool := num ≠ [] && num.all Char.isDigit
  match arg.bind (stripSuffix "p".toList) with
  | none => false
  | some core =>
      match core.splitOn ',' with
      | [num] => isNumber num
      | [a, b] => isNumber a && isNumber b
      | _ => false

def safeNames : List Str :=
  ["cat", "cd", "cut", "echo", "expr", "false", "grep", "head", "id", "ls", "nl", "paste", "pwd", "rev", "seq", "stat",
    "tail", "tr", "true", "uname", "uniq", "wc", "which", "whoami"].map String.toList

def isSafeToCallWithExec (target : Target) (command : List Str) : Bool :=
  match command.head?.bind (executableNameLookupKey target) with
  | none => false
  | some cmd =>
      if target.linux ∧ cmd ∈ ["numfmt".toList, "tac".toList] then true
      else if cmd ∈ safeNames then true
      else if cmd = "base64".toList then !command.tail.any isUnsafeBase64Arg
      else if cmd = "find".toList then !command.any fun arg => arg ∈ unsafeFindOptions
      else if cmd = "rg".toList then !command.any isUnsafeRipgrepArg
      else if cmd = "git".toList then isSafeGitCommand target command
      else
        cmd = "sed".toList && command.length ≤ 4 && command[1]? = some "-n".toList && isValidSedNArg command[2]?

/-!
## How a program reads its options

Which options take a value is the program's own knowledge.
-/

structure OptionTable where
  /-- The whole word takes the next one for its value. -/
  wordTakesValue : Str → Bool
  shortTakesValue : Char → Bool
  /-- The letters behind one dash are switches, up to one that takes the rest for its value. -/
  clusters : Bool

def readLetters (takesValue : Char → Bool) : List Char → List Char
  | [] => []
  | c :: rest => if takesValue c then [c] else c :: readLetters takesValue rest

namespace OptionTable

/-- The short options that a word gives. -/
def letters (table : OptionTable) : Str → List Char
  | '-' :: '-' :: _ => []
  | '-' :: rest => if table.clusters then readLetters table.shortTakesValue rest else rest.take 1
  | _ => []

def takesNext (table : OptionTable) (word : Str) : Bool :=
  table.wordTakesValue word || (table.letters word = word.tail && word.tail.getLast?.any table.shortTakesValue)

/-- The words that are read as options, without values and what stands after a bare `--`. -/
def optionWords (table : OptionTable) : (skipNext : Bool) → List Str → List Str
  | _, [] => []
  | true, _ :: args => optionWords table false args
  | false, word :: args =>
      if word = "--".toList then []
      else if "-".toList <+: word then word :: optionWords table (table.takesNext word) args
      else optionWords table false args

/-- The word gives the option: itself, with `=` and a value, or as a letter. -/
def Spells (table : OptionTable) (takesValue : Bool) (word option : Str) : Prop :=
  word = option ∨ (takesValue = true ∧ option ++ "=".toList <+: word) ∨ ∃ c ∈ table.letters word, option = ['-', c]

end OptionTable

/-- git reads its global options word by word, up to the subcommand. -/
def gitGlobalTable : OptionTable where
  wordTakesValue := isGitGlobalOptionWithValue
  shortTakesValue := fun c => c = 'C' || c = 'c'
  clusters := false

/-- The global option words, and the first word after them with its arguments. -/
def gitParts : (skipNext : Bool) → List Str → List Str × Option (Str × List Str)
  | _, [] => ([], none)
  | true, _ :: args => gitParts false args
  | false, word :: args =>
      if "-".toList <+: word then
        let parts := gitParts (gitGlobalTable.takesNext word) args
        (word :: parts.1, parts.2)
      else ([], some (word, args))

/-! ## What is promised -/

inductive Program where
  | git
  | rg
  | base64
  | find
  deriving DecidableEq

def Program.name : Program → Str
  | .git => "git".toList
  | .rg => "rg".toList
  | .base64 => "base64".toList
  | .find => "find".toList

/-- The tables of the programs themselves. -/
structure Readers where
  rg : OptionTable
  base64 : OptionTable
  find : OptionTable
  gitSubcommand : Str → OptionTable

def Program.table (readers : Readers) : Program → OptionTable
  | .git => gitGlobalTable
  | .rg => readers.rg
  | .base64 => readers.base64
  | .find => readers.find

def Program.words (readers : Readers) (args : List Str) : Program → List Str
  | .git =>
      let parts := gitParts false args
      parts.1 ++ parts.2.elim [] fun (subcommand, rest) => (readers.gitSubcommand subcommand).optionWords false rest
  | .rg => readers.rg.optionWords false args
  | .base64 => readers.base64.optionWords false args
  | .find => readers.find.optionWords false args

end Codrex.ShellCommand
