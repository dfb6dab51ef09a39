import Codrex.ShellCommand.Safety

/-!
# Which unsafe options run without asking

The checks look at whole words, so a letter in a cluster passes, and so does a flag of git before its subcommand.
-/

namespace Codrex.ShellCommand

open Text

variable {target : Target} {readers : Readers} {table : OptionTable} {cmd0 word : Str} {args : List Str}

/-! ## The check of each program -/

def passes (target : Target) (command : List Str) : Program → Bool
  | .git => isSafeGitCommand target command
  | .rg => !command.any isUnsafeRipgrepArg
  | .base64 => !command.tail.any isUnsafeBase64Arg
  | .find => !command.any fun arg => arg ∈ unsafeFindOptions

end Codrex.ShellCommand
