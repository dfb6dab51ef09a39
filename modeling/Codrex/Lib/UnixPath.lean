import Codrex.Lib.Text

/-!
# Unix paths

The lexical part of Rust's `std::path` on Unix: a path is a string, and its components are read off
the string without looking at a file system.
-/

namespace UnixPath
open Text

inductive Component
  | rootDir
  | curDir
  | parentDir
  | normal (name : Str)
  deriving DecidableEq

/-- The name of a directory entry: not empty, without a slash, and none of the two dot names. -/
def IsName (name : Str) : Prop := name ≠ [] ∧ name ≠ ['.'] ∧ name ≠ ['.', '.'] ∧ '/' ∉ name

instance (name : Str) : Decidable (IsName name) := by unfold IsName; infer_instance

def isAbsolute (path : Str) : Bool := path.head? == some '/'

def pieces (path : Str) : List Str := (path.splitOn '/').filter fun p => p ≠ [] && p ≠ ['.']

def Component.ofPiece (piece : Str) : Component :=
  if piece = ['.', '.'] then .parentDir else .normal piece

/-- `Path::components`. Repeated slashes and a `.` inside are dropped; a leading `.` of a relative path
is kept. -/
def components (path : Str) : List Component :=
  (if isAbsolute path then [.rootDir]
    else if (path.splitOn '/').head? = some ['.'] then [.curDir] else []) ++
    (pieces path).map Component.ofPiece

/-- `Path::join`: an absolute right side replaces the left side. -/
def join (base path : Str) : Str :=
  if isAbsolute path then path
  else if base = [] then path
  else if base.getLast? = some '/' then base ++ path
  else base ++ '/' :: path

def Component.name? : Component → Option Str
  | .normal name => some name
  | _ => none

/-- `Path::file_name`: the last component, when it is a normal one. -/
def fileName (path : Str) : Option Str := (components path).getLast?.bind Component.name?

/-- `Path::starts_with`: whole components are compared. -/
def startsWith (path base : Str) : Bool := (components base).isPrefixOf (components path)

def isIdle (piece : Str) : Bool := piece == [] || piece == ['.']

def parent (path : Str) : Option Str :=
  match (components path).getLast? with
  | none | some .rootDir => none
  | some .curDir => some []
  | some _ =>
      let body := ['/'].intercalate (((path.splitOn '/').rdropWhile isIdle).dropLast.rdropWhile isIdle)
      some (if body ≠ [] then body
        else if isAbsolute path then ['/']
        else if (path.splitOn '/').head? = some ['.'] then ['.'] else [])

/-- The pieces behind the first `count` that are not skipped. -/
def dropPieces : Nat → List Str → List Str
  | 0, pieces => pieces
  | _ + 1, [] => []
  | count + 1, piece :: pieces => if isIdle piece then dropPieces (count + 1) pieces else dropPieces count pieces

/-- `Path::strip_prefix`, as text: what stands between the slashes behind the base stays as it is spelled. -/
def stripBase (path base : Str) : Option Str :=
  if startsWith path base then
    if components base = [] then some path
    else
      let rest := dropPieces (pieces base).length (path.splitOn '/')
      some (['/'].intercalate ((rest.dropWhile isIdle).rdropWhile isIdle))
  else none

example : parent "/a//b/./c/" = some "/a//b".toList ∧ parent "/a" = some "/".toList ∧ parent "/" = none := by
  decide

example : stripBase "/repo//src/./a.rs" "/repo" = some "src/./a.rs".toList := by decide

/-! ## Components and pieces -/

theorem pieces_append (first second : Str) : pieces (first ++ '/' :: second) = pieces first ++ pieces second := by
  rw [pieces, List.splitOn_append_cons_self, List.filter_append]
  rfl

theorem pieces_intercalate {names : List Str} (h : ∀ name ∈ names, IsName name) :
    pieces (['/'].intercalate names) = names := by
  by_cases hnil : names = []
  · subst hnil
    rfl
  · rw [pieces, List.splitOn_intercalate '/' (fun name hmem => (h name hmem).2.2.2) hnil, List.filter_eq_self]
    intro name hmem
    simp [(h name hmem).1, (h name hmem).2.1]

theorem isAbsolute_intercalate {names : List Str} (h : ∀ name ∈ names, IsName name) :
    isAbsolute (['/'].intercalate names) = false := by
  cases names with
  | nil => rfl
  | cons name names =>
      obtain ⟨hne, -, -, hslash⟩ := h name List.mem_cons_self
      cases name with
      | nil => exact absurd rfl hne
      | cons c name =>
          have hc : c ≠ '/' := fun heq => hslash (heq ▸ List.mem_cons_self)
          cases names with
          | nil => simpa [isAbsolute] using hc
          | cons other names => simpa [isAbsolute, List.intercalate] using hc

theorem pieces_join {base path : Str} (hbase : base ≠ []) (hpath : isAbsolute path = false) :
    pieces (join base path) = pieces base ++ pieces path := by
  rw [join, if_neg (by simp [hpath]), if_neg hbase]
  split
  next hlast =>
    obtain ⟨start, rfl⟩ : ∃ start, base = start ++ ['/'] := by
      obtain ⟨start, last, rfl⟩ := (List.eq_nil_or_concat base).resolve_left hbase
      refine ⟨start, ?_⟩
      simpa using hlast
    rw [List.append_assoc, List.singleton_append, pieces_append, pieces_append]
    simp [pieces]
  next => exact pieces_append base path

def Component.piece? : Component → Option Str
  | .rootDir => none
  | .curDir => none
  | .parentDir => some ['.', '.']
  | .normal name => some name

theorem piece?_ofPiece (piece : Str) : (Component.ofPiece piece).piece? = some piece := by
  rw [Component.ofPiece]
  split
  next h => rw [h]; rfl
  next => rfl

theorem pieces_eq_filterMap (path : Str) : pieces path = (components path).filterMap Component.piece? := by
  have hpieces : ((pieces path).map Component.ofPiece).filterMap Component.piece? = pieces path := by
    rw [List.filterMap_map]
    simp [piece?_ofPiece]
  rw [components, List.filterMap_append, hpieces]
  split
  · rfl
  · split
    · rfl
    · rfl

theorem head?_pieces_ne (path : Str) : ((pieces path).map Component.ofPiece).head? ≠ some .rootDir := by
  cases pieces path with
  | nil => simp
  | cons piece rest =>
      rw [List.map_cons, List.head?_cons, Component.ofPiece]
      split
      · simp
      · simp

theorem isAbsolute_iff (path : Str) : isAbsolute path = true ↔ (components path).head? = some .rootDir := by
  rw [components]
  by_cases h : isAbsolute path = true
  · simp [h]
  · rw [if_neg h]
    split
    · simp [h]
    · exact iff_of_false h (head?_pieces_ne path)

/-- The first piece is a tilde exactly if the first component is. -/
theorem head?_splitOn_iff (path : Str) :
    (path.splitOn '/').head? = some ['~'] ↔ (components path).head? = some (.normal ['~']) := by
  cases path with
  | nil => decide
  | cons c path =>
      by_cases hc : c = '/'
      · subst hc
        simp [components, isAbsolute, List.splitOn_cons_eq_if_modifyHead]
      · obtain ⟨piece, rest, hsplit⟩ := List.exists_cons_of_ne_nil (List.splitOn_ne_nil '/' (c :: path))
        have hpiece : piece ≠ [] := by
          rintro rfl
          rw [List.splitOn_cons_eq_if_modifyHead, if_neg (by simpa using hc)] at hsplit
          obtain ⟨first, others, hfirst⟩ := List.exists_cons_of_ne_nil (List.splitOn_ne_nil '/' path)
          rw [hfirst] at hsplit
          cases hsplit
        have habsolute : isAbsolute (c :: path) = false := by simpa [isAbsolute] using hc
        rw [components, habsolute, pieces, hsplit]
        by_cases hdot : piece = ['.']
        · subst hdot
          simp
        · simp only [Bool.false_eq_true, if_false, List.head?_cons, Option.some.injEq, hdot, List.nil_append,
            List.filter_cons, ne_eq, hpiece, not_false_eq_true, decide_true, Bool.and_self, if_true, List.map_cons,
            Component.ofPiece]
          split
          next h => simp [h]
          next => simp

end UnixPath
