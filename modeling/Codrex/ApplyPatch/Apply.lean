import Codrex.ApplyPatch.Replace

/-!
# Applying a patch (`apply-patch/src/lib.rs`)

The hunks are applied to the file system one after the other. The first one that fails ends the run, and the
hunks before it stay applied.
-/

namespace Codrex.ApplyPatch

open Text

/-- `anyhow::Error`, as it comes about here: a bare message, an I/O error under a context, or an error of
this crate. -/
inductive Failure
  | message (text : Str)
  | io (context : Str) (source : Io.Error)
  | applyPatch (err : ApplyPatchError)
  deriving DecidableEq

def Failure.display : Failure → Str
  | message text => text
  | io context _ => context
  | applyPatch err => err.display

/-- `downcast_ref::<std::io::Error>`; it looks through a context, not into an error of this crate. -/
def Failure.ioError? : Failure → Option Io.Error
  | io _ source => some source
  | _ => none

structure AffectedPaths where
  added : List Str
  modified : List Str
  deleted : List Str
  deriving DecidableEq

section

variable {σ : Type} (env : HostEnv) (fs : ExecutorFileSystem σ) (cwd : AbsolutePathBuf)

def failedToWrite (pathAbs : AbsolutePathBuf) (err : Io.Error) : Failure :=
  .io ("Failed to write file ".toList ++ pathAbs.toPath) err

def writeFileWithContext (state : σ) (pathAbs : AbsolutePathBuf) (contents : Str) : σ × Except Failure Unit :=
  match fs.writeFile state pathAbs contents with
  | (state, .ok ()) => (state, .ok ())
  | (state, .error err) => (state, .error (failedToWrite pathAbs err))

/-- The directories above are created only when the write misses them. -/
def writeFileWithMissingParentRetry (state : σ) (pathAbs : AbsolutePathBuf) (contents : Str) :
    σ × Except Failure Unit :=
  match fs.writeFile state pathAbs contents with
  | (state, .ok ()) => (state, .ok ())
  | (state, .error err) =>
      if err.kind = .notFound then
        match pathAbs.parent with
        | some parentAbs =>
            match fs.createDirectory state parentAbs ⟨true⟩ with
            | (state, .ok ()) => writeFileWithContext fs state pathAbs contents
            | (state, .error err) =>
                (state, .error (.io ("Failed to create parent directories for ".toList ++ pathAbs.toPath) err))
        | none => writeFileWithContext fs state pathAbs contents
      else (state, .error (failedToWrite pathAbs err))

def removeFile (state : σ) (pathAbs : AbsolutePathBuf) : σ × Io.Result Unit :=
  match fs.getMetadata state pathAbs with
  | .error err => (state, .error err)
  | .ok metadata =>
      if metadata.isDirectory then (state, .error ⟨.invalidInput, "path is a directory"⟩)
      else fs.remove state pathAbs ⟨false, false⟩

def removeFileWithContext (state : σ) (pathAbs : AbsolutePathBuf) (context : Str) : σ × Except Failure Unit :=
  match removeFile fs state pathAbs with
  | (state, .ok ()) => (state, .ok ())
  | (state, .error err) => (state, .error (.io (context ++ pathAbs.toPath) err))

/-- The update arm: the new contents go to the destination of the move, if there is one, and the original is
removed then. -/
def applyUpdate (state : σ) (pathAbs : AbsolutePathBuf) (movePath : Option Str)
    (chunks : List UpdateFileChunk) : σ × Except Failure Unit :=
  match deriveNewContentsFromChunks fs state pathAbs chunks with
  | .error err => (state, .error (.applyPatch err))
  | .ok applied =>
      match movePath with
      | some dest =>
          let destAbs := AbsolutePathBuf.resolvePathAgainstBase env dest cwd
          match writeFileWithMissingParentRetry fs state destAbs applied.newContents with
          | (state, .ok ()) => removeFileWithContext fs state pathAbs "Failed to remove original "
          | (state, .error err) => (state, .error err)
      | none => writeFileWithContext fs state pathAbs applied.newContents

def applyHunk (state : σ) (hunk : Hunk) : σ × Except Failure Unit :=
  let pathAbs := hunk.resolvePath env cwd
  match hunk with
  | .addFile _ contents => writeFileWithMissingParentRetry fs state pathAbs contents
  | .deleteFile _ => removeFileWithContext fs state pathAbs "Failed to delete file "
  | .updateFile _ movePath chunks => applyUpdate env fs cwd state pathAbs movePath chunks

def AffectedPaths.record (affected : AffectedPaths) (hunk : Hunk) : AffectedPaths :=
  match hunk with
  | .addFile .. => { affected with added := affected.added ++ [hunk.path] }
  | .deleteFile .. => { affected with deleted := affected.deleted ++ [hunk.path] }
  | .updateFile .. => { affected with modified := affected.modified ++ [hunk.path] }

def applyLoop : σ → AffectedPaths → List Hunk → σ × Except Failure AffectedPaths
  | state, affected, [] => (state, .ok affected)
  | state, affected, hunk :: hunks =>
      match applyHunk env fs cwd state hunk with
      | (state, .ok ()) => applyLoop state (affected.record hunk) hunks
      | (state, .error err) => (state, .error err)

def applyHunksToFiles (state : σ) (hunks : List Hunk) : σ × Except Failure AffectedPaths :=
  if hunks.isEmpty then (state, .error (.message "No files were modified."))
  else applyLoop env fs cwd state ⟨[], [], []⟩ hunks

def printSummary (affected : AffectedPaths) : Str :=
  "Success. Updated the following files:\n".toList ++
    affected.added.flatMap (fun path => "A ".toList ++ path ++ ['\n']) ++
    affected.modified.flatMap (fun path => "M ".toList ++ path ++ ['\n']) ++
    affected.deleted.flatMap (fun path => "D ".toList ++ path ++ ['\n'])

/-- What a call leaves behind. Writing to `stdout` and `stderr` does not fail. -/
structure PatchRun (σ : Type) where
  state : σ
  stdout : Str
  stderr : Str
  result : Except ApplyPatchError Unit

def applyHunks (state : σ) (hunks : List Hunk) : PatchRun σ :=
  match applyHunksToFiles env fs cwd state hunks with
  | (state, .ok affected) => ⟨state, printSummary affected, [], .ok ()⟩
  | (state, .error err) =>
      let msg := err.display
      let error : ApplyPatchError := match err.ioError? with
        | some io => .ioError "I/O error" io
        | none => .ioError msg ⟨.other, msg⟩
      ⟨state, [], msg ++ ['\n'], .error error⟩

def parseErrorReport : ParseError → Str
  | .invalidPatchError message => "Invalid patch: ".toList ++ message ++ ['\n']
  | .invalidHunkError message lineNumber =>
      "Invalid patch hunk on line ".toList ++ Nat.toDigits 10 lineNumber ++ ": ".toList ++ message ++ ['\n']

def applyPatch (state : σ) (patch : Str) : PatchRun σ :=
  match parsePatch patch with
  | .ok source => applyHunks env fs cwd state source.hunks
  | .error err => ⟨state, [], parseErrorReport err, .error (.parseError err)⟩

end

end Codrex.ApplyPatch

/-!
## Verified invocations (`apply-patch/src/invocation.rs`)

The command line is taken apart, and the patch in it is turned into the changes that are shown before it is
applied. All changes are computed from the file system as it is before the patch.
-/

namespace Codrex.ApplyPatch

open Text UnixPath

inductive ExtractHeredocError
  | commandDidNotStartWithApplyPatch
  | failedToLoadBashGrammar
  | heredocNotUtf8
  | failedToParsePatchIntoAst
  | failedToFindHeredocBody
  deriving DecidableEq

/-- The two libraries behind an invocation: the bash grammar, which finds the heredoc of a script and the
directory it changes to, and the diff of two texts with a number of context lines. -/
structure InvocationEnv where
  extractApplyPatchFromBash : Str → Except ExtractHeredocError (Str × Option Str)
  unifiedDiff : Str → Str → Nat → Str

inductive ApplyPatchFileChange
  | add (content : Str)
  | delete (content : Str)
  | update (unifiedDiff : Str) (movePath : Option AbsolutePathBuf) (newContent : Str)
  deriving DecidableEq

/-- The changes stand under the path they start from, at most one under each. -/
abbrev Changes := AbsolutePathBuf → Option ApplyPatchFileChange

structure ApplyPatchAction where
  changes : Changes
  patch : Str
  cwd : AbsolutePathBuf

inductive MaybeApplyPatch
  | body (args : ApplyPatchArgs)
  | shellParseError (err : ExtractHeredocError)
  | patchParseError (err : ParseError)
  | notApplyPatch
  deriving DecidableEq

inductive MaybeApplyPatchVerified
  | body (action : ApplyPatchAction)
  | shellParseError (err : ExtractHeredocError)
  | correctnessError (err : ApplyPatchError)
  | notApplyPatch

/-! ## Shells -/

inductive ApplyPatchShell
  | unix
  | powerShell
  | cmd
  deriving DecidableEq

/-- `Path::file_stem`: the file name up to its last dot, when the dot is not its first character. -/
def fileStem (path : Str) : Option Str :=
  (fileName path).map fun name =>
    let stem := (name.reverse.dropWhile (· ≠ '.')).tail.reverse
    if stem = [] then name else stem

def classifyShellName (shell : Str) : Option Str := (fileStem shell).map toAsciiLowercase

def classifyShell (shell flag : Str) : Option ApplyPatchShell :=
  (classifyShellName shell).bind fun name =>
    if name ∈ ["bash".toList, "zsh".toList, "sh".toList] ∧ flag ∈ ["-lc".toList, "-c".toList] then some .unix
    else if name ∈ ["pwsh".toList, "powershell".toList] ∧ eqIgnoreAsciiCase flag "-command" then some .powerShell
    else if name = "cmd".toList ∧ eqIgnoreAsciiCase flag "/c" then some .cmd
    else none

def canSkipFlag (shell flag : Str) : Bool :=
  (classifyShellName shell).any fun name =>
    decide (name ∈ ["pwsh".toList, "powershell".toList]) && eqIgnoreAsciiCase flag "-noprofile"

def parseShellScript : List Str → Option (ApplyPatchShell × Str)
  | [shell, flag, script] => (classifyShell shell flag).map fun shellType => (shellType, script)
  | [shell, skipFlag, flag, script] =>
      if canSkipFlag shell skipFlag then (classifyShell shell flag).map fun shellType => (shellType, script)
      else none
  | _ => none

/-! ## The invocation -/

def applyPatchCommands : List Str := ["apply_patch", "applypatch"]

section

variable (inv : InvocationEnv)

def extractApplyPatchFromShell (shell : ApplyPatchShell) (script : Str) :
    Except ExtractHeredocError (Str × Option Str) :=
  match shell with
  | .unix | .powerShell | .cmd => inv.extractApplyPatchFromBash script

def maybeParseShell (argv : List Str) : MaybeApplyPatch :=
  match parseShellScript argv with
  | none => .notApplyPatch
  | some (shell, script) =>
      match extractApplyPatchFromShell inv shell script with
      | .ok (body, workdir) =>
          match parsePatch body with
          | .ok source => .body { source with workdir := workdir }
          | .error err => .patchParseError err
      | .error .commandDidNotStartWithApplyPatch => .notApplyPatch
      | .error err => .shellParseError err

def maybeParseApplyPatch (argv : List Str) : MaybeApplyPatch :=
  match argv with
  | [cmd, body] =>
      if cmd ∈ applyPatchCommands then
        match parsePatch body with
        | .ok source => .body source
        | .error err => .patchParseError err
      else maybeParseShell inv argv
  | _ => maybeParseShell inv argv

variable {σ : Type} (env : HostEnv) (fs : ExecutorFileSystem σ) (cwd : AbsolutePathBuf) (state : σ)

def previewChange (hunk : Hunk) : Except ApplyPatchError ApplyPatchFileChange :=
  let path := hunk.resolvePath env cwd
  match hunk with
  | .addFile _ contents => .ok (.add contents)
  | .deleteFile _ =>
      match fs.readFileText state path with
      | .ok content => .ok (.delete content)
      | .error err => .error (.ioError ("Failed to read ".toList ++ path.toPath) err)
  | .updateFile _ movePath chunks =>
      match deriveNewContentsFromChunks fs state path chunks with
      | .ok applied =>
          .ok (.update (inv.unifiedDiff applied.originalContents applied.newContents 1)
            (movePath.map fun dest => AbsolutePathBuf.resolvePathAgainstBase env dest cwd) applied.newContents)
      | .error err => .error err

/-- The loop over the hunks. A change goes into the map over the one that was there. -/
def previewLoop : Changes → List Hunk → Except ApplyPatchError Changes
  | changes, [] => .ok changes
  | changes, hunk :: hunks =>
      match previewChange inv env fs cwd state hunk with
      | .ok change => previewLoop (Function.update changes (hunk.resolvePath env cwd) (some change)) hunks
      | .error err => .error err

def isImplicitInvocation (argv : List Str) : Bool :=
  (match argv with
    | [body] => (parsePatch body).isOk
    | _ => false) ||
  (match parseShellScript argv with
    | some (_, script) => (parsePatch script).isOk
    | none => false)

def maybeParseApplyPatchVerified (argv : List Str) : MaybeApplyPatchVerified :=
  if isImplicitInvocation argv then .correctnessError .implicitInvocation
  else match maybeParseApplyPatch inv argv with
    | .body args =>
        let effectiveCwd := args.workdir.elim cwd fun dir => AbsolutePathBuf.resolvePathAgainstBase env dir cwd
        match previewLoop inv env fs effectiveCwd state (fun _ => none) args.hunks with
        | .ok changes => .body ⟨changes, args.patch, effectiveCwd⟩
        | .error err => .correctnessError err
    | .shellParseError err => .shellParseError err
    | .patchParseError err => .correctnessError (.parseError err)
    | .notApplyPatch => .notApplyPatch

end

end Codrex.ApplyPatch
