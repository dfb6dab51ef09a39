import Codrex.Lib.UnixPath

/-!
# Absolute paths (`utils/absolute-path`)

`AbsolutePathBuf` is an absolute path without `.` and `..`. It is kept as the list of its names.
-/

namespace Codrex
open Text UnixPath

structure AbsolutePathBuf where
  names : List Str
  isName : ∀ n ∈ names, IsName n
  deriving DecidableEq

namespace AbsolutePathBuf

def toPath (p : AbsolutePathBuf) : Str := '/' :: ['/'].intercalate p.names

def root : AbsolutePathBuf := ⟨[], by simp⟩

def push (p : AbsolutePathBuf) (name : Str) (h : IsName name) : AbsolutePathBuf :=
  ⟨p.names ++ [name], by
    intro n hn
    rcases List.mem_append.mp hn with hn | hn
    · exact p.isName n hn
    · rw [List.mem_singleton.mp hn]; exact h⟩

/-- `PathBuf::pop`; the root stays. -/
def pop (p : AbsolutePathBuf) : AbsolutePathBuf :=
  ⟨p.names.dropLast, fun n hn => p.isName n ((List.dropLast_sublist _).subset hn)⟩

def parent (p : AbsolutePathBuf) : Option AbsolutePathBuf := if p.names = [] then none else some p.pop

def fileName (p : AbsolutePathBuf) : Option Str := p.names.getLast?

def startsWith (p base : AbsolutePathBuf) : Bool := base.names.isPrefixOf p.names

/-- `Path::strip_prefix`. -/
def stripBase (p base : AbsolutePathBuf) : Option Str :=
  if p.startsWith base then some (['/'].intercalate (p.names.drop base.names.length)) else none

def truncate (p : AbsolutePathBuf) (length : Nat) : AbsolutePathBuf :=
  ⟨p.names.take length, fun n hn => p.isName n (List.mem_of_mem_take hn)⟩

/-- `Path::ancestors`: the path, its parent, and so on to the root. -/
def ancestors (p : AbsolutePathBuf) : List AbsolutePathBuf := (List.range (p.names.length + 1)).reverse.map p.truncate

/-- One step of `normalize_path`. The root directory is where the result starts. -/
def normalizeStep (p : AbsolutePathBuf) : Component → AbsolutePathBuf
  | .rootDir => root
  | .curDir => p
  | .parentDir => p.pop
  | .normal name => if h : IsName name then p.push name h else p

def normalizePath (path : Str) : AbsolutePathBuf := (components path).foldl normalizeStep root

end AbsolutePathBuf

/-- What the path functions read from the process: the home directory and the current directory. -/
structure HostEnv where
  home : Option Str
  currentDir : Option AbsolutePathBuf

namespace AbsolutePathBuf

/-- `maybe_expand_home_directory`, without the Windows branch. -/
def maybeExpandHomeDirectory (env : HostEnv) (path : Str) : Str :=
  match env.home, stripPrefix "~" path with
  | some home, some rest =>
      if rest = [] then home
      else match stripPrefix "/" rest with
        | some rest => join home (rest.dropWhile (· == '/'))
        | none => path
  | _, _ => path

def pathWithBase (path base : Str) : Str := if isAbsolute path then path else join base path

def resolvePathAgainstBase (env : HostEnv) (path : Str) (base : AbsolutePathBuf) : AbsolutePathBuf :=
  normalizePath (pathWithBase (maybeExpandHomeDirectory env path) base.toPath)

def join (env : HostEnv) (p : AbsolutePathBuf) (path : Str) : AbsolutePathBuf := resolvePathAgainstBase env path p

/-- `from_absolute_path`: a relative path is resolved against the current directory. -/
def fromAbsolutePath (env : HostEnv) (path : Str) : Option AbsolutePathBuf :=
  let expanded := maybeExpandHomeDirectory env path
  if isAbsolute expanded then some (normalizePath expanded)
  else env.currentDir.map fun dir => normalizePath (pathWithBase expanded dir.toPath)

example :
    (resolvePathAgainstBase ⟨none, none⟩ "../src/./a.rs" (normalizePath "/repo/docs")).toPath =
      "/repo/src/a.rs" := by decide

end AbsolutePathBuf

end Codrex

/-!
## Paths above each other
-/

namespace Codrex.AbsolutePathBuf

variable {p q r : AbsolutePathBuf}

theorem ext_names (h : p.names = q.names) : p = q := by
  cases p
  cases q
  cases h
  rfl

theorem startsWith_iff_names : p.startsWith q = true ↔ q.names <+: p.names := by
  rw [startsWith, List.isPrefixOf_iff_prefix]

theorem startsWith_self (p : AbsolutePathBuf) : p.startsWith p = true := startsWith_iff_names.mpr (List.prefix_refl _)

theorem startsWith_root (p : AbsolutePathBuf) : p.startsWith root = true := startsWith_iff_names.mpr List.nil_prefix

theorem startsWith_trans (hpq : p.startsWith q = true) (hqr : q.startsWith r = true) : p.startsWith r = true := by
  rw [startsWith_iff_names] at *
  exact hqr.trans hpq

theorem eq_root_of_startsWith (h : root.startsWith p = true) : p = root :=
  ext_names (List.prefix_nil.mp (startsWith_iff_names.mp h))

/-- What stands above a path is the path, or stands above its parent. -/
theorem startsWith_iff_pop : p.startsWith q = true ↔ q = p ∨ p.pop.startsWith q = true := by
  rw [startsWith_iff_names, startsWith_iff_names]
  constructor
  · rintro ⟨rest, hrest⟩
    rcases List.eq_nil_or_concat rest with rfl | ⟨start, last, rfl⟩
    · exact .inl (ext_names (by rw [← hrest, List.append_nil]))
    · refine .inr ⟨start, ?_⟩
      show q.names ++ start = p.names.dropLast
      rw [← hrest, List.concat_eq_append, ← List.append_assoc, List.dropLast_concat]
  · rintro (rfl | h)
    · exact List.prefix_refl _
    · exact h.trans (List.dropLast_prefix _)

theorem startsWith_pop (p : AbsolutePathBuf) : p.startsWith p.pop = true :=
  startsWith_iff_pop.mpr (.inr (startsWith_self _))

/-- Only the root stands above its parent. -/
theorem eq_root_of_pop (h : p.pop.startsWith p = true) : p = root := by
  have hlength : p.names.length ≤ p.names.dropLast.length := (startsWith_iff_names.mp h).length_le
  rw [List.length_dropLast] at hlength
  exact ext_names (List.eq_nil_of_length_eq_zero (by omega))

theorem mem_ancestors_iff : q ∈ p.ancestors ↔ p.startsWith q = true := by
  simp only [ancestors, List.mem_map, List.mem_reverse, List.mem_range, startsWith_iff_names]
  constructor
  · rintro ⟨length, -, rfl⟩
    exact List.take_prefix _ _
  · intro h
    refine ⟨q.names.length, Nat.lt_succ_of_le h.length_le, ?_⟩
    exact ext_names (List.prefix_iff_eq_take.mp h).symm

end Codrex.AbsolutePathBuf

/-!
## Resolution of paths

Paths are normalised by their pieces, so those with the same components are resolved to the same place.
-/

namespace Codrex.AbsolutePathBuf

open Text UnixPath

theorem normalizePath_eq (path : Str) :
    normalizePath path = ((pieces path).map Component.ofPiece).foldl normalizeStep root := by
  rw [normalizePath, components, List.foldl_append]
  congr 1
  split
  · rfl
  · split
    · rfl
    · rfl

theorem foldl_names (p : AbsolutePathBuf) (names : List Str) (h : ∀ name ∈ names, IsName name) :
    ((names.map Component.ofPiece).foldl normalizeStep p).names = p.names ++ names := by
  induction names generalizing p with
  | nil => simp
  | cons name names ih =>
      have hname := h name List.mem_cons_self
      have hpiece : Component.ofPiece name = .normal name := if_neg hname.2.2.1
      rw [List.map_cons, List.foldl_cons, ih _ fun other hother => h other (List.mem_cons_of_mem _ hother), hpiece]
      simp [normalizeStep, hname, push]

variable {path : Str} {env : HostEnv}

theorem normalizePath_of_pieces {p : AbsolutePathBuf} (h : pieces path = p.names) : normalizePath path = p := by
  apply ext_names
  rw [normalizePath_eq, h, foldl_names _ _ p.isName]
  rfl

theorem pieces_toPath (p : AbsolutePathBuf) : pieces p.toPath = p.names := by
  have h := pieces_append [] (['/'].intercalate p.names)
  rw [pieces_intercalate p.isName] at h
  exact h

theorem normalizePath_toPath (p : AbsolutePathBuf) : normalizePath p.toPath = p :=
  normalizePath_of_pieces (pieces_toPath p)

theorem maybeExpandHomeDirectory_of_absolute (env : HostEnv) (h : isAbsolute path = true) :
    maybeExpandHomeDirectory env path = path := by
  cases path with
  | nil => cases h
  | cons c path =>
      obtain rfl : c = '/' := by simpa [isAbsolute] using h
      have hstrip : Text.stripPrefix "~" ('/' :: path) = none := rfl
      rw [maybeExpandHomeDirectory, hstrip]
      cases env.home with
      | none => rfl
      | some _ => rfl

theorem fromAbsolutePath_of_absolute (env : HostEnv) (h : isAbsolute path = true) :
    fromAbsolutePath env path = some (normalizePath path) := by
  rw [fromAbsolutePath, maybeExpandHomeDirectory_of_absolute env h, if_pos h]

/-! ## A path as it is compared -/

/-- What `normalize_path` reads of a path. -/
def SamePlace (first second : Str) : Prop := isAbsolute first = isAbsolute second ∧ pieces first = pieces second

theorem SamePlace.of_components {first second : Str} (h : components first = components second) :
    SamePlace first second := by
  refine ⟨?_, by rw [pieces_eq_filterMap, pieces_eq_filterMap, h]⟩
  rw [Bool.eq_iff_iff, isAbsolute_iff, isAbsolute_iff, h]

theorem SamePlace.normalizePath_pathWithBase {first second : Str} (h : SamePlace first second) (base : AbsolutePathBuf) :
    normalizePath (pathWithBase first base.toPath) = normalizePath (pathWithBase second base.toPath) := by
  rw [pathWithBase, pathWithBase, h.1]
  split
  · rw [normalizePath_eq, normalizePath_eq, h.2]
  next habsolute =>
    have hsecond : isAbsolute second = false := by simpa using habsolute
    rw [normalizePath_eq, normalizePath_eq, pieces_join (by simp [toPath]) (h.1.trans hsecond),
      pieces_join (by simp [toPath]) hsecond, h.2]

theorem pieces_dropSlashes (path : Str) : pieces (path.dropWhile (· == '/')) = pieces path := by
  induction path with
  | nil => rfl
  | cons c path ih =>
      by_cases hc : c = '/'
      · subst hc
        rw [List.dropWhile_cons_of_pos (by rfl), ih]
        exact (pieces_append [] path).symm
      · rw [List.dropWhile_cons_of_neg (by simpa using hc)]

theorem isAbsolute_dropSlashes (path : Str) : isAbsolute (path.dropWhile (· == '/')) = false := by
  induction path with
  | nil => rfl
  | cons c path ih =>
      by_cases hc : c = '/'
      · subst hc
        rw [List.dropWhile_cons_of_pos (by rfl)]
        exact ih
      · rw [List.dropWhile_cons_of_neg (by simpa using hc)]
        simpa [isAbsolute] using hc

theorem isAbsolute_join {base : Str} (h : isAbsolute path = false) :
    isAbsolute (UnixPath.join base path) = isAbsolute base := by
  rw [UnixPath.join, if_neg (by simp [h])]
  cases base with
  | nil => exact h
  | cons c base =>
      rw [if_neg (by simp)]
      split
      · rfl
      · rfl

theorem head?_splitOn_tilde (h : (path.splitOn '/').head? = some ['~']) :
    path = ['~'] ∨ ∃ rest, path = '~' :: '/' :: rest := by
  obtain ⟨first, rest, hsplit⟩ := List.exists_cons_of_ne_nil (List.splitOn_ne_nil '/' path)
  obtain rfl : first = ['~'] := by simpa [hsplit] using h
  have hpath : ['/'].intercalate (path.splitOn '/') = path := List.intercalate_splitOn '/'
  rw [hsplit] at hpath
  cases rest with
  | nil => exact .inl hpath.symm
  | cons second rest => exact .inr ⟨_, hpath.symm⟩

/-- A path that starts with a tilde goes on from the home directory. -/
theorem maybeExpandHomeDirectory_of_tilde {home : Str} (hhome : env.home = some home)
    (h : (path.splitOn '/').head? = some ['~']) :
    isAbsolute (maybeExpandHomeDirectory env path) = isAbsolute home ∧
      pieces (maybeExpandHomeDirectory env path) = pieces home ++ (pieces path).tail := by
  rcases head?_splitOn_tilde h with rfl | ⟨rest, rfl⟩
  · have hexpanded : maybeExpandHomeDirectory env ['~'] = home := by
      simp [maybeExpandHomeDirectory, hhome, Text.stripPrefix]
    rw [hexpanded]
    exact ⟨rfl, (List.append_nil _).symm⟩
  · have hexpanded : maybeExpandHomeDirectory env ('~' :: '/' :: rest) =
        UnixPath.join home (rest.dropWhile (· == '/')) := by
      simp [maybeExpandHomeDirectory, hhome, Text.stripPrefix]
    have htail : (pieces ('~' :: '/' :: rest)).tail = pieces rest := by
      rw [← List.singleton_append, pieces_append]
      rfl
    rw [hexpanded, htail]
    refine ⟨isAbsolute_join (isAbsolute_dropSlashes rest), ?_⟩
    by_cases hnil : home = []
    · subst hnil
      rw [UnixPath.join, if_neg (by simp [isAbsolute_dropSlashes]), if_pos rfl]
      exact pieces_dropSlashes rest
    · rw [pieces_join hnil (isAbsolute_dropSlashes rest), pieces_dropSlashes]

theorem maybeExpandHomeDirectory_of_not_tilde (h : env.home = none ∨ (path.splitOn '/').head? ≠ some ['~']) :
    maybeExpandHomeDirectory env path = path := by
  rw [maybeExpandHomeDirectory]
  split
  next home rest hhome hrest =>
    obtain rfl : path = '~' :: rest := eq_append_of_stripPrefix hrest
    have htilde := h.resolve_left (by simp [hhome])
    split
    next hnil =>
      subst hnil
      exact absurd rfl htilde
    next =>
      split
      next inner hinner =>
        obtain rfl : rest = '/' :: inner := eq_append_of_stripPrefix hinner
        have hsplit : ('~' :: '/' :: inner).splitOn '/' = [['~']] ++ inner.splitOn '/' :=
          List.splitOn_append_cons_self ['~'] inner
        exact absurd (by rw [hsplit]; rfl) htilde
      next => rfl
  next => rfl

/-- A name is an entry of the current directory, unless it stands for the home directory. -/
theorem fromAbsolutePath_of_isName {name : Str} (h : IsName name) (htilde : name ≠ ['~']) :
    fromAbsolutePath env name = env.currentDir.map fun dir => dir.push name h := by
  have hnames : ∀ other ∈ [name], IsName other := by simpa using h
  have hsplit : name.splitOn '/' = [name] := by
    simpa using List.splitOn_intercalate '/' (fun other hother => (hnames other hother).2.2.2) (by simp)
  have hrelative : isAbsolute name = false := by simpa using isAbsolute_intercalate hnames
  have hexpanded : maybeExpandHomeDirectory env name = name :=
    maybeExpandHomeDirectory_of_not_tilde (.inr (by simpa [hsplit] using htilde))
  simp only [fromAbsolutePath, hexpanded, hrelative, Bool.false_eq_true, if_false]
  congr 1
  funext dir
  apply normalizePath_of_pieces
  have hpieces : pieces name = [name] := by simpa using pieces_intercalate hnames
  rw [pathWithBase, hrelative, if_neg (by simp), pieces_join (by simp [toPath]) hrelative, pieces_toPath, hpieces]
  rfl

/-- Paths with the same components are resolved in the same way. -/
theorem resolvePathAgainstBase_congr {first second : Str} (h : components first = components second)
    (base : AbsolutePathBuf) : resolvePathAgainstBase env first base = resolvePathAgainstBase env second base := by
  apply SamePlace.normalizePath_pathWithBase
  have hsame := SamePlace.of_components h
  have htilde : (first.splitOn '/').head? = some ['~'] ↔ (second.splitOn '/').head? = some ['~'] := by
    rw [head?_splitOn_iff, head?_splitOn_iff, h]
  cases hhome : env.home with
  | none =>
      rw [maybeExpandHomeDirectory_of_not_tilde (.inl hhome), maybeExpandHomeDirectory_of_not_tilde (.inl hhome)]
      exact hsame
  | some home =>
      by_cases hfirst : (first.splitOn '/').head? = some ['~']
      · obtain ⟨habsolute, hpieces⟩ := maybeExpandHomeDirectory_of_tilde hhome hfirst
        obtain ⟨habsolute', hpieces'⟩ := maybeExpandHomeDirectory_of_tilde hhome (htilde.mp hfirst)
        exact ⟨habsolute.trans habsolute'.symm, by rw [hpieces, hpieces', hsame.2]⟩
      · rw [maybeExpandHomeDirectory_of_not_tilde (.inr hfirst),
          maybeExpandHomeDirectory_of_not_tilde (.inr fun hsecond => hfirst (htilde.mpr hsecond))]
        exact hsame

end Codrex.AbsolutePathBuf
