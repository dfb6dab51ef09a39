import Codrex.AbsolutePath
import Mathlib.Logic.Function.Basic

/-!
# The file system interface (`exec-server/src/file_system.rs`)

`ExecutorFileSystem` with the methods that patches use. The sandbox context is the same in all calls of a
run and belongs to the file system here.
-/

namespace Codrex

open Text

namespace Io

inductive ErrorKind
  | notFound
  | invalidInput
  | invalidData
  | alreadyExists
  | notADirectory
  | isADirectory
  | directoryNotEmpty
  | resourceBusy
  | other
  deriving DecidableEq

/-- `std::io::Error`: its kind, and how it is displayed. -/
structure Error where
  kind : ErrorKind
  message : Str
  deriving DecidableEq

abbrev Result (α : Type) := Except Error α

end Io

structure CreateDirectoryOptions where
  recursive : Bool

structure RemoveOptions where
  recursive : Bool
  force : Bool

structure FileMetadata where
  isDirectory : Bool

/-- A file system with states in `σ`. An operation that fails may still change the state. -/
structure ExecutorFileSystem (σ : Type) where
  readFileText : σ → AbsolutePathBuf → Io.Result Str
  writeFile : σ → AbsolutePathBuf → Str → σ × Io.Result Unit
  createDirectory : σ → AbsolutePathBuf → CreateDirectoryOptions → σ × Io.Result Unit
  getMetadata : σ → AbsolutePathBuf → Io.Result FileMetadata
  remove : σ → AbsolutePathBuf → RemoveOptions → σ × Io.Result Unit

/-! ## What paths hold -/

/-- What is documented of a file system. A path holds the text of the file that its lookup, links followed,
ends at; the lookup passes the directory entry of the path itself and those of the links on its way. Only a
removal changes which entries are passed and found. -/
structure FileContents {σ : Type} (fs : ExecutorFileSystem σ) where
  contents : σ → AbsolutePathBuf → Option Str
  /-- The lookup of `path` passes the entry that `entry` names. -/
  passes : (state : σ) → (path entry : AbsolutePathBuf) → Prop
  passes_self : ∀ state path, passes state path path
  contents_readFileText : ∀ state path text, fs.readFileText state path = .ok text → contents state path = some text
  contents_writeFile : ∀ state path text state', fs.writeFile state path text = (state', .ok ()) →
    contents state' path = some text
  passes_writeFile : ∀ state path text, passes (fs.writeFile state path text).1 = passes state
  passes_createDirectory : ∀ state path options, passes (fs.createDirectory state path options).1 = passes state
  contents_remove_passed : ∀ state entry state', fs.remove state entry ⟨false, false⟩ = (state', .ok ()) →
    ∀ path, passes state path entry → contents state' path = none
  contents_remove_other : ∀ state entry state', fs.remove state entry ⟨false, false⟩ = (state', .ok ()) →
    ∀ path, ¬ passes state path entry → contents state' path = contents state path

/-! ## Trees of text files -/

abbrev Texts := AbsolutePathBuf → Option Str

inductive TextEntry
  | dir
  | text (contents : Str)
  deriving DecidableEq

def TextEntry.contents? : TextEntry → Option Str
  | dir => none
  | text contents => some contents

/-- A finite tree of directories and text files. All of them may be read and written, and there are no links. -/
structure TextFiles where
  entry : AbsolutePathBuf → Option TextEntry
  paths : List AbsolutePathBuf
  mem_paths : ∀ path, entry path ≠ none → path ∈ paths
  root_dir : entry .root = some .dir
  above : ∀ path dir, entry path ≠ none → path.startsWith dir = true → dir ≠ path → entry dir = some .dir

namespace TextFiles

open AbsolutePathBuf

def empty : TextFiles where
  entry path := if path = .root then some .dir else none
  paths := [.root]
  mem_paths path h := by simpa using h
  root_dir := if_pos rfl
  above path dir h hdir hne := by
    obtain rfl : path = .root := by simpa using h
    exact absurd (eq_root_of_startsWith hdir) hne

section

variable {files : TextFiles} {path dir : AbsolutePathBuf}

theorem pop_dir (h : files.entry path ≠ none) (hroot : path ≠ .root) : files.entry path.pop = some .dir :=
  files.above path _ h (startsWith_pop path) fun heq =>
    hroot (eq_root_of_pop (by rw [heq]; exact startsWith_self path))

theorem above_pop (hpop : files.entry path.pop = some .dir)
    (hstarts : path.startsWith dir = true) (hne : dir ≠ path) : files.entry dir = some .dir := by
  have hdir := (startsWith_iff_pop.mp hstarts).resolve_left hne
  by_cases hlast : dir = path.pop
  · rw [hlast, hpop]
  · exact files.above _ dir (by simp [hpop]) hdir hlast

end

/-- The map of the text files. -/
def text (files : TextFiles) : Texts := (Option.bind · TextEntry.contents?) ∘ files.entry

/-- A text under a path of a directory, in place of the one that was there. -/
def put (files : TextFiles) (path : AbsolutePathBuf) (contents : Str) (hdir : files.entry path.pop = some .dir)
    (hplace : files.entry path ≠ some .dir) : TextFiles where
  entry := Function.update files.entry path (some (.text contents))
  paths := path :: files.paths
  mem_paths other h := by
    by_cases heq : other = path
    · rw [heq]
      exact List.mem_cons_self
    · rw [Function.update_of_ne heq] at h
      exact List.mem_cons_of_mem _ (files.mem_paths other h)
  root_dir := by
    rw [Function.update_of_ne, files.root_dir]
    rintro rfl
    exact hplace files.root_dir
  above other dir h hstarts hne := by
    have hdirNe : dir ≠ path := by
      rintro rfl
      rw [Function.update_of_ne hne.symm] at h
      exact hplace (files.above other dir h hstarts hne)
    rw [Function.update_of_ne hdirNe]
    by_cases heq : other = path
    · subst heq
      exact above_pop hdir hstarts hne
    · rw [Function.update_of_ne heq] at h
      exact files.above other dir h hstarts hne

/-- A directory at the path and at every path above it. -/
def makeDirs (files : TextFiles) (path : AbsolutePathBuf) : TextFiles where
  entry other := if path.startsWith other then some .dir else files.entry other
  paths := path.ancestors ++ files.paths
  mem_paths other h := by
    by_cases hother : path.startsWith other = true
    · exact List.mem_append_left _ (mem_ancestors_iff.mpr hother)
    · rw [if_neg hother] at h
      exact List.mem_append_right _ (files.mem_paths other h)
  root_dir := if_pos (startsWith_root path)
  above other dir h hstarts hne := by
    by_cases hdir : path.startsWith dir = true
    · exact if_pos hdir
    · rw [if_neg fun hother => hdir (startsWith_trans hother hstarts)] at h
      rw [if_neg hdir]
      exact files.above other dir h hstarts hne

/-- Nothing at the path and below it. -/
def removeAll (files : TextFiles) (path : AbsolutePathBuf) (hroot : path ≠ .root) : TextFiles where
  entry other := if other.startsWith path then none else files.entry other
  paths := files.paths
  mem_paths other h := by
    by_cases hother : other.startsWith path = true
    · exact absurd (if_pos hother) h
    · rw [if_neg hother] at h
      exact files.mem_paths other h
  root_dir := by
    rw [if_neg fun h => hroot (eq_root_of_startsWith h), files.root_dir]
  above other dir h hstarts hne := by
    by_cases hother : other.startsWith path = true
    · exact absurd (if_pos hother) h
    · rw [if_neg hother] at h
      rw [if_neg fun hdir => hother (startsWith_trans hstarts hdir)]
      exact files.above other dir h hstarts hne

def notFoundError : Io.Error := ⟨.notFound, "No such file or directory (os error 2)"⟩

def resourceBusyError : Io.Error := ⟨.resourceBusy, "Device or resource busy (os error 16)"⟩

def alreadyExistsError : Io.Error := ⟨.alreadyExists, "File exists (os error 17)"⟩

def notADirectoryError : Io.Error := ⟨.notADirectory, "Not a directory (os error 20)"⟩

def isADirectoryError : Io.Error := ⟨.isADirectory, "Is a directory (os error 21)"⟩

def directoryNotEmptyError : Io.Error := ⟨.directoryNotEmpty, "Directory not empty (os error 39)"⟩

def belowText (files : TextFiles) (path : AbsolutePathBuf) : Bool := path.ancestors.any fun dir => (files.text dir).isSome

/-- Why a lookup finds nothing: there is a file on its way, or a name is missing. -/
def missing (files : TextFiles) (path : AbsolutePathBuf) : Io.Error :=
  if files.belowText path then notADirectoryError else notFoundError

def isEmptyDir (files : TextFiles) (path : AbsolutePathBuf) : Bool :=
  files.paths.all fun other => !other.startsWith path || other == path || (files.entry other).isNone

end TextFiles

open TextFiles in
/-- The operating system under `DirectFileSystem` on such a tree. -/
def textFiles : ExecutorFileSystem TextFiles where
  readFileText files path :=
    match files.entry path with
    | some (.text contents) => .ok contents
    | some .dir => .error isADirectoryError
    | none => .error (files.missing path)
  writeFile files path contents :=
    if hplace : files.entry path = some .dir then (files, .error isADirectoryError)
    else if hdir : files.entry path.pop = some .dir then (files.put path contents hdir hplace, .ok ())
    else (files, .error (files.missing path))
  createDirectory files path options :=
    if options.recursive then
      if (files.text path).isSome then (files, .error alreadyExistsError)
      else if files.belowText path then (files, .error notADirectoryError)
      else (files.makeDirs path, .ok ())
    else if files.entry path ≠ none then (files, .error alreadyExistsError)
    else if files.entry path.pop = some .dir then (files.makeDirs path, .ok ())
    else (files, .error (files.missing path))
  getMetadata files path :=
    match files.entry path with
    | some (.text _) => .ok ⟨false⟩
    | some .dir => .ok ⟨true⟩
    | none => .error (files.missing path)
  remove files path options :=
    if files.entry path = none then
      (files, if options.force && !files.belowText path then .ok () else .error (files.missing path))
    else if hroot : path = .root then (files, .error resourceBusyError)
    else if files.entry path = some .dir && !options.recursive && !files.isEmptyDir path then
      (files, .error directoryNotEmptyError)
    else (files.removeAll path hroot, .ok ())

namespace TextFiles

open AbsolutePathBuf

variable {files : TextFiles} {path : AbsolutePathBuf}

theorem text_eq_some {contents : Str} : files.text path = some contents ↔ files.entry path = some (.text contents) := by
  rw [text, Function.comp_apply]
  cases files.entry path with
  | none => simp
  | some entry => cases entry <;> simp [TextEntry.contents?]

theorem text_of_not_dir (hthere : files.entry path ≠ none) (hdir : files.entry path ≠ some .dir) :
    ∃ contents, files.text path = some contents := by
  obtain ⟨found, hfound⟩ := Option.ne_none_iff_exists'.mp hthere
  cases found with
  | dir => exact absurd hfound hdir
  | text contents => exact ⟨contents, text_eq_some.mpr hfound⟩

theorem ne_root_of_text (h : files.text path ≠ none) : path ≠ .root := by
  rintro rfl
  rw [text, Function.comp_apply, files.root_dir] at h
  exact h rfl

/-- Below a text there is nothing, so only the text goes. -/
theorem entry_removeAll (h : files.text path ≠ none) (hroot : path ≠ .root) :
    (files.removeAll path hroot).entry = Function.update files.entry path none := by
  obtain ⟨contents, htext⟩ := Option.ne_none_iff_exists'.mp h
  rw [text_eq_some] at htext
  funext other
  by_cases heq : other = path
  · rw [heq, Function.update_self]
    exact if_pos (startsWith_self path)
  · rw [Function.update_of_ne heq]
    by_cases hother : other.startsWith path = true
    · have hnone : files.entry other = none := by
        by_contra hsome
        have hdir := files.above other path hsome hother (Ne.symm heq)
        rw [htext] at hdir
        cases hdir
      rw [hnone]
      exact if_pos hother
    · exact if_neg hother

theorem entry_removeAll_empty (h : files.isEmptyDir path = true) {other : AbsolutePathBuf} (hne : other ≠ path)
    (hroot : path ≠ .root) : (files.removeAll path hroot).entry other = files.entry other := by
  by_cases hother : other.startsWith path = true
  · have hnone : files.entry other = none := by
      by_contra hsome
      have hall := List.all_eq_true.mp h other (files.mem_paths other hsome)
      simp [hother, hne, hsome] at hall
    rw [hnone]
    exact if_pos hother
  · exact if_neg hother

end TextFiles

/-- Without links a lookup passes the entry of its path and no other. -/
def textFilesContents : FileContents textFiles where
  contents files := files.text
  passes _ path entry := path = entry
  passes_self _ _ := rfl
  contents_readFileText files path text h := by
    rw [TextFiles.text_eq_some]
    simp only [textFiles] at h
    split at h
    · rename_i contents hentry
      cases h
      exact hentry
    · cases h
    · cases h
  contents_writeFile files path text files' h := by
    simp only [textFiles] at h
    split_ifs at h with hplace hdir
    all_goals cases h
    exact TextFiles.text_eq_some.mpr (Function.update_self path _ files.entry)
  passes_writeFile _ _ _ := rfl
  passes_createDirectory _ _ _ := rfl
  contents_remove_passed files entry files' h path hpath := by
    subst hpath
    simp only [textFiles, Bool.false_and, Bool.false_eq_true, if_false] at h
    split_ifs at h with hnone hroot hfull
    all_goals cases h
    have hgone : (files.removeAll path hroot).entry path = none := if_pos (AbsolutePathBuf.startsWith_self path)
    simp [TextFiles.text, hgone]
  contents_remove_other files entry files' h path hpath := by
    simp only [textFiles, Bool.false_and, Bool.false_eq_true, if_false] at h
    split_ifs at h with hnone hroot hfull
    all_goals cases h
    simp only [TextFiles.text, Function.comp_apply]
    congr 1
    by_cases hdir : files.entry entry = some .dir
    · exact TextFiles.entry_removeAll_empty (by simpa [hdir] using hfull) hpath hroot
    · obtain ⟨contents, htext⟩ := TextFiles.text_of_not_dir hnone hdir
      rw [TextFiles.entry_removeAll (by simp [htext]), Function.update_of_ne hpath]

end Codrex

/-!
## File trees with symbolic links

What the operating system makes of a path. The nodes stand at their canonical paths; a lookup walks along the
components of a path and follows the links it meets.
-/

namespace Codrex

open Text UnixPath

inductive Node
  | dir
  /-- A regular file of UTF-8 text. -/
  | text (contents : Str)
  /-- A regular file that is not UTF-8. -/
  | binary
  /-- What is there and cannot be read as a file. -/
  | special
  | symlink (target : Str)
  deriving DecidableEq

structure FileTree where
  nodes : AbsolutePathBuf → Option Node
  currentDir : AbsolutePathBuf

namespace FileTree

/-- The components of a path for the operating system: a final slash asks for a directory. -/
def osComponents (path : Str) : List Component :=
  (if isAbsolute path then [.rootDir] else []) ++
    ((path.splitOn '/').filter (· ≠ [])).map (fun piece => if piece = ['.'] then .curDir else .ofPiece piece) ++
    if path.getLast? = some '/' then [.curDir] else []

/-- One walk along the components from a directory; `follow` takes over at a link. -/
def walkWith (tree : FileTree) (follow : AbsolutePathBuf → List Component → Option AbsolutePathBuf) :
    AbsolutePathBuf → List Component → Option AbsolutePathBuf
  | dir, [] => some dir
  | _, .rootDir :: rest => walkWith tree follow .root rest
  | dir, .curDir :: rest => walkWith tree follow dir rest
  | dir, .parentDir :: rest => walkWith tree follow dir.pop rest
  | dir, .normal name :: rest =>
      if h : IsName name then
        match tree.nodes (dir.push name h) with
        | none => none
        | some .dir => walkWith tree follow (dir.push name h) rest
        | some (.symlink target) => if target = [] then none else follow dir (osComponents target ++ rest)
        | some _ => if rest = [] then some (dir.push name h) else none
      else none

def walk (tree : FileTree) : Nat → AbsolutePathBuf → List Component → Option AbsolutePathBuf
  | 0 => fun _ _ => none
  | links + 1 => walkWith tree (walk tree links)

def maxLinks : Nat := 40

def canonicalize (tree : FileTree) (path : Str) : Option AbsolutePathBuf :=
  if path = [] then none else walk tree (maxLinks + 1) tree.currentDir (osComponents path)

def nodeAt (tree : FileTree) (location : AbsolutePathBuf) : Option Node :=
  if location = .root then some .dir else tree.nodes location

def exists? (tree : FileTree) (path : Str) : Bool := (tree.canonicalize path).isSome

def isDir (tree : FileTree) (path : Str) : Bool := (tree.canonicalize path).bind tree.nodeAt == some .dir

inductive Bytes
  | utf8 (text : Str)
  | other
  deriving DecidableEq

/-- `std::fs::read`, with the canonical path of the file that is read. -/
def read (tree : FileTree) (path : Str) : Option (AbsolutePathBuf × Bytes) :=
  match tree.canonicalize path with
  | none => none
  | some location =>
      match tree.nodeAt location with
      | some (.text contents) => some (location, .utf8 contents)
      | some .binary => some (location, .other)
      | _ => none

theorem read_utf8 {tree : FileTree} {path text : Str} {location : AbsolutePathBuf} :
    tree.read path = some (location, .utf8 text) ↔
      tree.canonicalize path = some location ∧ tree.nodeAt location = some (.text text) := by
  unfold read
  constructor
  · intro h
    split at h
    · cases h
    · rename_i found hfound
      split at h
      · rename_i contents hnode
        cases h
        exact ⟨hfound, hnode⟩
      · cases h
      · cases h
  · rintro ⟨hfound, hnode⟩
    simp only [hfound, hnode]

end FileTree

end Codrex
