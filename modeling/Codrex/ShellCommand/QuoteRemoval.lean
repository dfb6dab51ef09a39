import Mathlib.Data.List.Pairwise
import Codrex.Lib.Escapes
import Codrex.ShellCommand.Bash
import Codrex.ShellCommand.Safety

/-!
# The words that bash runs

A tree of a script, and what is left of its words once bash has removed the quotes.
-/

namespace Codrex.ShellCommand

open Text

variable {src text : Str} {n part word cmd : Node} {tree : Tree} {commands : List (List Str)}

/-! ## Trees of scripts -/

/-- Quotes, operators, globs, braces and the tilde. -/
def specialCharacters : List Char := "'\"<>\x7b\x7d[]()`$|&;\\*?~".toList

/-- An unquoted word: characters that mean nothing special, and escapes. -/
inductive WordText : Str → Prop
  | nil : WordText []
  | plain {c : Char} {s : Str} (hc : c ∉ specialCharacters) (hspace : isWhitespace c = false) (h : WordText s) :
      WordText (c :: s)
  | escape {c : Char} {s : Str} (h : WordText s) : WordText ('\\' :: c :: s)

/-- What stands between double quotes, without expansions. -/
inductive StringText : Str → Prop
  | nil : StringText []
  | plain {c : Char} {s : Str} (hc : c ∉ ['"', '\\', '$', '`']) (h : StringText s) : StringText (c :: s)
  | escape {c : Char} {s : Str} (h : StringText s) : StringText ('\\' :: c :: s)

inductive IsPart (src : Str) : Node → Prop
  | word {kind : Kind} {startByte endByte : Nat} {text : Str} (hkind : kind = .word ∨ kind = .number)
      (htext : slice src startByte endByte = some text) (hword : WordText text) :
      IsPart src (.node kind startByte endByte [])
  | string {startByte endByte : Nat} {text : Str} {children : List Node}
      (htext : slice src startByte endByte = some ('"' :: (text ++ ['"']))) (hstring : StringText text)
      (hchildren : ∀ child ∈ children, (child.kind = .token ['"'] ∨ child.kind = .stringContent) ∧ child.children = []) :
      IsPart src (.node .string startByte endByte children)
  | rawString {startByte endByte : Nat} {text : Str} (htext : slice src startByte endByte = some ('\'' :: (text ++ ['\''])))
      (hraw : '\'' ∉ text) : IsPart src (.node .rawString startByte endByte [])

inductive IsWord (src : Str) : Node → Prop
  | part {n : Node} (h : IsPart src n) : IsWord src n
  | concatenation {startByte endByte : Nat} {children : List Node} (h : ∀ child ∈ children, IsPart src child) :
      IsWord src (.node .concatenation startByte endByte children)

/-- A simple command: its name and its arguments. -/
inductive IsCommand (src : Str) : Node → Prop
  | command {startByte endByte nameStart nameEnd : Nat} {name : Node} {args : List Node} (hlt : startByte < endByte)
      (hname : IsWord src name) (hargs : ∀ arg ∈ args, IsWord src arg) :
      IsCommand src (.node .command startByte endByte (.node .commandName nameStart nameEnd [name] :: args))

/-- Commands with tokens between them, one behind the other. -/
inductive Script (src : Str) : Node → Prop
  | token {text : Str} {startByte endByte : Nat} : Script src (.node (.token text) startByte endByte [])
  | command {n : Node} (h : IsCommand src n) : Script src n
  | group {kind : Kind} {startByte endByte : Nat} {children : List Node}
      (hkind : kind = .program ∨ kind = .list ∨ kind = .pipeline)
      (hwithin : ∀ child ∈ children, startByte ≤ child.startByte ∧ child.endByte ≤ endByte)
      (horder : children.Pairwise fun child next => child.endByte ≤ next.startByte)
      (hchildren : ∀ child ∈ children, Script src child) : Script src (.node kind startByte endByte children)

namespace Node

mutual
/-- The commands in the order of the source. -/
def sourceCommands : Node → List Node
  | node kind startByte endByte children =>
      if kind = .command then [node kind startByte endByte children] else sourceCommandsAll children

def sourceCommandsAll : List Node → List Node
  | [] => []
  | child :: children => sourceCommands child ++ sourceCommandsAll children
end

def concatParts (n : Node) : List Node := if n.kind = .concatenation then n.children else [n]

def wordParts (n : Node) : List Node := if n.kind = .commandName then n.children.flatMap concatParts else n.concatParts

end Node

/-! ## Quote removal -/

def stringEscapes (c : Char) : Bool := c ∈ ['"', '\\', '$', '`', '\n']

def partText (src : Str) (part : Node) : Str := (part.utf8Text src).getD []

/-- The text between the quotes. -/
def quotedText (src : Str) (part : Node) : Str := (partText src part).tail.dropLast

/-- A part with the quotes around it removed. -/
def rawPart (src : Str) (part : Node) : Str :=
  match part.kind with
  | .word | .number => partText src part
  | .string | .rawString => quotedText src part
  | _ => []

/-- A part as bash has it once all quotes are removed, backslashes included. -/
def bashPart (src : Str) (part : Node) : Str :=
  match part.kind with
  | .word | .number => unescape (fun _ => true) (partText src part)
  | .string => unescape stringEscapes (quotedText src part)
  | .rawString => quotedText src part
  | _ => []

/-- Backslashes that bash removes. -/
def partEscapes (src : Str) (part : Node) : Bool :=
  match part.kind with
  | .word | .number => '\\' ∈ partText src part
  | .string => hasEscape stringEscapes (quotedText src part)
  | _ => false

def argvOf (value : Node → Str) (cmd : Node) : List Str :=
  cmd.children.map fun word => (word.wordParts.map value).flatten

def bashScript (src : Str) (root : Node) : List (List Str) := root.sourceCommands.map (argvOf (bashPart src))

/-! ## Parts -/

theorem WordText.hasEscape_iff (h : WordText text) : hasEscape (fun _ => true) text = decide ('\\' ∈ text) := by
  induction h with
  | nil => rfl
  | @plain c s hc hspace h ih =>
      have hne : c ≠ '\\' := fun heq => hc (heq ▸ by decide)
      rw [hasEscape, ih]
      · simp [hne.symm]
      · exact fun next rest heq => absurd heq hne
  | escape h ih => simp [hasEscape]

theorem bashPart_length_le (src : Str) (part : Node) : (bashPart src part).length ≤ (rawPart src part).length := by
  rw [bashPart, rawPart]
  split
  · exact length_unescape_le _ _
  · exact length_unescape_le _ _
  · exact length_unescape_le _ _
  · exact Nat.le_refl _
  · exact Nat.zero_le _

theorem bashPart_of_not (h : IsPart src part) (hnot : partEscapes src part = false) : bashPart src part = rawPart src part := by
  cases h with
  | @word kind startByte endByte text hkind htext hword =>
      have hpart : partText src (.node kind startByte endByte []) = text := by
        rw [partText, Node.utf8Text]
        exact congrArg (Option.getD · []) htext
      rcases hkind with rfl | rfl
      all_goals
        simp only [partEscapes, Node.kind, hpart, decide_eq_false_iff_not] at hnot
        simp only [bashPart, rawPart, Node.kind, hpart]
        exact unescape_of_not (by rw [hword.hasEscape_iff]; simpa using hnot)
  | string htext hstring hchildren => exact unescape_of_not hnot
  | rawString htext hraw => rfl

theorem bashPart_length_lt (h : IsPart src part) (hescapes : partEscapes src part = true) :
    (bashPart src part).length < (rawPart src part).length := by
  cases h with
  | @word kind startByte endByte text hkind htext hword =>
      have hpart : partText src (.node kind startByte endByte []) = text := by
        rw [partText, Node.utf8Text]
        exact congrArg (Option.getD · []) htext
      rcases hkind with rfl | rfl
      all_goals
        simp only [partEscapes, Node.kind, hpart] at hescapes
        simp only [bashPart, rawPart, Node.kind, hpart]
        exact length_unescape_lt (by rw [hword.hasEscape_iff]; exact hescapes)
  | string htext hstring hchildren => exact length_unescape_lt hescapes
  | rawString htext hraw => cases hescapes

theorem parsePart_eq (h : IsPart src part) : parsePart part src = some (rawPart src part) := by
  cases h with
  | @word kind startByte endByte text hkind htext hword =>
      have htext' : (Node.node kind startByte endByte []).utf8Text src = some text := htext
      rcases hkind with rfl | rfl
      all_goals simp only [parsePart, Node.kind, rawPart, partText, htext', Option.getD_some]
  | @string startByte endByte text children htext hstring hchildren =>
      have htext' : (Node.node .string startByte endByte children).utf8Text src = some ('"' :: (text ++ ['"'])) := htext
      have hparts : ((Node.node .string startByte endByte children).namedChildren.any fun part =>
          part.kind ≠ .stringContent) = false := by
        refine List.any_eq_false.mpr fun child hchild => ?_
        obtain ⟨hmem, hnamed⟩ := List.mem_filter.mp hchild
        rcases (hchildren child hmem).1 with hkind | hkind
        · simp [Node.isNamed, hkind] at hnamed
        · simp [hkind]
      have hprefix : stripPrefix "\"".toList ('"' :: (text ++ ['"'])) = some (text ++ ['"']) :=
        stripPrefix_append ['"'] (text ++ ['"'])
      have hsuffix : stripSuffix "\"".toList (text ++ ['"']) = some text := by simp [stripSuffix]
      have hraw : rawPart src (.node .string startByte endByte children) = text := by
        show (partText src _).tail.dropLast = text
        rw [partText, htext']
        simp
      show parseDoubleQuotedString _ src = _
      rw [parseDoubleQuotedString, if_neg fun h => h rfl, hparts, if_neg Bool.false_ne_true, htext', hraw]
      simp only [Option.bind_eq_bind, Option.bind_some, hprefix, hsuffix]
  | @rawString startByte endByte text htext hraw =>
      have htext' : (Node.node .rawString startByte endByte []).utf8Text src = some ('\'' :: (text ++ ['\''])) := htext
      have hprefix : stripPrefix "'".toList ('\'' :: (text ++ ['\''])) = some (text ++ ['\'']) :=
        stripPrefix_append ['\''] (text ++ ['\''])
      have hsuffix : stripSuffix "'".toList (text ++ ['\'']) = some text := by simp [stripSuffix]
      have hraw : rawPart src (.node .rawString startByte endByte []) = text := by
        show (partText src _).tail.dropLast = text
        rw [partText, htext']
        simp
      show parseRawString _ src = _
      rw [parseRawString, if_neg fun h => h rfl, htext', hraw]
      simp only [Option.bind_eq_bind, Option.bind_some, hprefix, hsuffix]

/-! ## Words and commands -/

theorem map_of_mapM {α β : Type} {f : α → Option β} {g : α → β} {l : List α} {found : List β}
    (hg : ∀ a ∈ l, ∀ b, f a = some b → b = g a) (h : l.mapM f = some found) : found = l.map g := by
  induction l generalizing found with
  | nil => simpa using h.symm
  | cons a l ih =>
      rw [List.mapM_cons] at h
      obtain ⟨b, hb, h⟩ := Option.bind_eq_some_iff.mp h
      obtain ⟨rest, hrest, h⟩ := Option.bind_eq_some_iff.mp h
      cases h
      rw [hg a (List.mem_cons_self ..) b hb, ih (fun a ha => hg a (List.mem_cons_of_mem _ ha)) hrest, List.map_cons]

theorem IsPart.isNamed (h : IsPart src part) : part.isNamed = true := by
  cases h with
  | word hkind => rcases hkind with rfl | rfl <;> rfl
  | string => rfl
  | rawString => rfl

theorem IsPart.kind_ne (h : IsPart src part) :
    part.kind ≠ .concatenation ∧ part.kind ≠ .commandName ∧ part.kind ≠ .command := by
  cases h with
  | word hkind => rcases hkind with rfl | rfl <;> simp [Node.kind]
  | string => simp [Node.kind]
  | rawString => simp [Node.kind]

theorem IsPart.wordParts (h : IsPart src part) : part.wordParts = [part] := by
  rw [Node.wordParts, if_neg h.kind_ne.2.1, Node.concatParts, if_neg h.kind_ne.1]

theorem IsPart.parseWord (h : IsPart src part) : parseWord part src = parsePart part src := by
  cases h with
  | word hkind => rcases hkind with rfl | rfl <;> rfl
  | string => rfl
  | rawString => rfl

theorem IsWord.wordParts (h : IsWord src word) : ∀ part ∈ word.wordParts, IsPart src part := by
  cases h with
  | part h =>
      intro part hpart
      rw [h.wordParts] at hpart
      rwa [List.mem_singleton.mp hpart]
  | concatenation h => exact h

theorem IsWord.isNamed (h : IsWord src word) : word.isNamed = true := by
  cases h with
  | part h => exact h.isNamed
  | concatenation => rfl

/-- What is read off a word is the text of its parts without the quotes around them. -/
theorem parseWord_eq (h : IsWord src word) {found : Str} (hfound : parseWord word src = some found) :
    found = (word.wordParts.map (rawPart src)).flatten := by
  cases h with
  | part h =>
      rw [h.parseWord, parsePart_eq h] at hfound
      cases hfound
      rw [h.wordParts]
      exact (List.append_nil _).symm
  | @concatenation startByte endByte children h =>
      obtain ⟨parts, hparts, hfound⟩ := Option.bind_eq_some_iff.mp hfound
      have hnamed : (Node.node .concatenation startByte endByte children).namedChildren = children :=
        List.filter_eq_self.mpr fun child hchild => (h child hchild).isNamed
      rw [hnamed] at hparts
      have heq : parts = children.map (rawPart src) := map_of_mapM (fun child hchild text htext => by
        rw [parsePart_eq (h child hchild)] at htext
        exact (Option.some.inj htext).symm) hparts
      split at hfound
      · cases hfound
      · cases hfound
        rw [heq]
        rfl

/-- The name of a command that is read off is one unquoted word. -/
theorem parseName_eq {nameStart nameEnd : Nat} {name : Node} (h : IsWord src name) {found : Str}
    (hfound : parseWord (.node .commandName nameStart nameEnd [name]) src = some found) :
    found = ((Node.node .commandName nameStart nameEnd [name]).wordParts.map (rawPart src)).flatten := by
  have hnamed : (Node.node .commandName nameStart nameEnd [name]).namedChildren = [name] :=
    List.filter_eq_self.mpr fun child hchild => by rw [List.mem_singleton.mp hchild, h.isNamed]
  have hhead : (if name.kind ≠ .word then none else name.utf8Text src) = some found := by
    rw [parseWord] at hfound
    simpa only [Node.kind, hnamed, List.head?_cons, Option.bind_some] using hfound
  have hparts : (Node.node .commandName nameStart nameEnd [name]).wordParts = name.concatParts :=
    List.append_nil _
  split at hhead
  · cases hhead
  · next hword =>
      have hword : name.kind = .word := not_not.mp hword
      rw [hparts, Node.concatParts, if_neg (by rw [hword]; decide)]
      have hraw : rawPart src name = found := by rw [rawPart, hword, partText, hhead, Option.getD_some]
      rw [List.map_singleton, hraw]
      exact (List.append_nil _).symm

theorem parsePlainCommand_eq (h : IsCommand src cmd) {found : List Str}
    (hfound : parsePlainCommandFromNode cmd src = some found) : found = argvOf (rawPart src) cmd := by
  cases h with
  | @command startByte endByte nameStart nameEnd name args hlt hname hargs =>
      rw [parsePlainCommandFromNode, if_neg fun h => h rfl] at hfound
      have hnamed : (Node.node .command startByte endByte (.node .commandName nameStart nameEnd [name] :: args)).namedChildren
          = .node .commandName nameStart nameEnd [name] :: args := by
        refine List.filter_eq_self.mpr fun child hchild => ?_
        rcases List.mem_cons.mp hchild with rfl | hchild
        · rfl
        · exact (hargs child hchild).isNamed
      rw [hnamed] at hfound
      refine map_of_mapM (fun child hchild text htext => ?_) hfound
      rcases List.mem_cons.mp hchild with rfl | hchild
      · exact parseName_eq hname htext
      · exact parseWord_eq (hargs child hchild) htext

theorem IsCommand.parts (h : IsCommand src cmd) : ∀ word ∈ cmd.children, ∀ part ∈ word.wordParts, IsPart src part := by
  cases h with
  | @command startByte endByte nameStart nameEnd name args hlt hname hargs =>
      intro word hword part hpart
      rcases List.mem_cons.mp hword with rfl | hword
      · have hparts : (Node.node .commandName nameStart nameEnd [name]).wordParts = name.concatParts := List.append_nil _
        rw [hparts] at hpart
        refine hname.wordParts part ?_
        have hkind : name.kind ≠ .commandName := by
          cases hname with
          | part h => exact h.kind_ne.2.1
          | concatenation => exact fun h => by cases h
        rwa [Node.wordParts, if_neg hkind]
      · exact (hargs word hword).wordParts part hpart

/-- The words of a command are those of bash exactly if bash removes no backslash. -/
theorem argv_eq_iff (h : IsCommand src cmd) : argvOf (rawPart src) cmd = argvOf (bashPart src) cmd ↔
    ∀ word ∈ cmd.children, ∀ part ∈ word.wordParts, partEscapes src part = false := by
  rw [argvOf, argvOf, List.map_inj_left]
  constructor
  · intro heq word hword part hpart
    by_contra hescapes
    have hlt := bashPart_length_lt (h.parts word hword part hpart) (Bool.not_eq_false _ ▸ hescapes)
    have hlength := length_eq_of_flatten (fun part _ => bashPart_length_le src part)
      (congrArg List.length (heq word hword).symm) part hpart
    omega
  · intro hnot word hword
    refine congrArg List.flatten (List.map_congr_left fun part hpart => ?_)
    exact (bashPart_of_not (h.parts word hword part hpart) (hnot word hword part hpart)).symm

/-! ## The commands of a script -/

theorem mem_poppedAll {m : Node} {children : List Node} : m ∈ Node.poppedAll children ↔ ∃ child ∈ children, m ∈ child.popped := by
  induction children with
  | nil => simp [Node.poppedAll]
  | cons child children ih => simp [Node.poppedAll, ih, or_comm]

theorem sourceCommandsAll_eq (children : List Node) :
    Node.sourceCommandsAll children = children.flatMap Node.sourceCommands := by
  induction children with
  | nil => rfl
  | cons child children ih => rw [Node.sourceCommandsAll, ih, List.flatMap_cons]

/-- No command is part of a word. -/
theorem IsPart.no_command (h : IsPart src part) : ∀ m ∈ part.popped, m.kind ≠ .command := by
  have hkind := h.kind_ne.2.2
  cases h with
  | word =>
      intro m hm
      rwa [List.mem_singleton.mp hm]
  | string htext hstring hchildren =>
      intro m hm
      rcases List.mem_cons.mp hm with rfl | hm
      · exact hkind
      · obtain ⟨⟨kind, startByte, endByte, leaves⟩, hchild, hm⟩ := mem_poppedAll.mp hm
        obtain ⟨hchildKind, hleaf⟩ := hchildren _ hchild
        simp only [Node.children] at hleaf
        subst hleaf
        rw [List.mem_singleton.mp hm]
        rcases hchildKind with heq | heq <;> rw [heq] <;> decide
  | rawString =>
      intro m hm
      rwa [List.mem_singleton.mp hm]

theorem IsWord.no_command (h : IsWord src word) : ∀ m ∈ word.popped, m.kind ≠ .command := by
  cases h with
  | part h => exact h.no_command
  | concatenation h =>
      intro m hm
      rcases List.mem_cons.mp hm with rfl | hm
      · exact fun heq => by cases heq
      · obtain ⟨child, hchild, hm⟩ := mem_poppedAll.mp hm
        exact (h child hchild).no_command m hm

theorem IsCommand.popped_filter (h : IsCommand src cmd) : (cmd.popped.filter fun n => n.kind = .command) = [cmd] := by
  cases h with
  | @command startByte endByte nameStart nameEnd name args hlt hname hargs =>
      rw [Node.popped, List.filter_cons_of_pos (by simp [Node.kind])]
      congr 1
      refine List.filter_eq_nil_iff.mpr fun m hm => ?_
      obtain ⟨child, hchild, hm⟩ := mem_poppedAll.mp hm
      rcases List.mem_cons.mp hchild with rfl | hchild
      · rcases List.mem_cons.mp hm with rfl | hm
        · simp [Node.kind]
        · obtain ⟨child, hchild, hm⟩ := mem_poppedAll.mp hm
          rw [List.mem_singleton.mp hchild] at hm
          simpa using hname.no_command m hm
      · simpa using (hargs child hchild).no_command m hm

theorem IsCommand.sourceCommands (h : IsCommand src cmd) : cmd.sourceCommands = [cmd] := by
  cases h with
  | command => rw [Node.sourceCommands, if_pos rfl]

theorem sourceCommands_group {kind : Kind} {startByte endByte : Nat} {children : List Node}
    (hkind : kind = .program ∨ kind = .list ∨ kind = .pipeline) :
    (Node.node kind startByte endByte children).sourceCommands = children.flatMap Node.sourceCommands := by
  rw [Node.sourceCommands, if_neg (by rcases hkind with rfl | rfl | rfl <;> decide), sourceCommandsAll_eq]

/-- The stack gives the commands last to first. -/
theorem Script.popped_filter (h : Script src n) :
    (n.popped.filter fun n => n.kind = .command) = n.sourceCommands.reverse := by
  induction h with
  | token => rfl
  | command h => rw [h.popped_filter, h.sourceCommands, List.reverse_singleton]
  | @group kind startByte endByte children hkind hwithin horder hchildren ih =>
      have hall : (Node.poppedAll children).filter (fun n => n.kind = .command) =
          (children.flatMap Node.sourceCommands).reverse := by
        clear hwithin horder hchildren
        induction children with
        | nil => rfl
        | cons child children ihAll =>
            rw [Node.poppedAll, List.filter_append, ih child (List.mem_cons_self ..),
              ihAll fun child hchild => ih child (List.mem_cons_of_mem _ hchild), List.flatMap_cons, List.reverse_append]
      rw [sourceCommands_group hkind, Node.popped, List.filter_cons_of_neg, hall]
      rcases hkind with rfl | rfl | rfl <;> simp [Node.kind]

theorem Script.within (h : Script src n) : ∀ cmd ∈ n.sourceCommands,
    IsCommand src cmd ∧ n.startByte ≤ cmd.startByte ∧ cmd.startByte < n.endByte := by
  induction h with
  | token => exact nofun
  | command h =>
      intro cmd hcmd
      rw [h.sourceCommands] at hcmd
      rw [List.mem_singleton.mp hcmd]
      refine ⟨h, Nat.le_refl _, ?_⟩
      cases h with
      | command hlt => exact hlt
  | @group kind startByte endByte children hkind hwithin horder hchildren ih =>
      intro cmd hcmd
      rw [sourceCommands_group hkind] at hcmd
      obtain ⟨child, hchild, hcmd⟩ := List.mem_flatMap.mp hcmd
      obtain ⟨hcommand, hle, hlt⟩ := ih child hchild cmd hcmd
      obtain ⟨hstart, hend⟩ := hwithin child hchild
      exact ⟨hcommand, hstart.trans hle, hlt.trans_le hend⟩

theorem Script.ordered (h : Script src n) :
    n.sourceCommands.Pairwise fun cmd next => cmd.startByte < next.startByte := by
  induction h with
  | token => exact List.Pairwise.nil
  | command h =>
      rw [h.sourceCommands]
      exact List.pairwise_singleton _ _
  | @group kind startByte endByte children hkind hwithin horder hchildren ih =>
      rw [sourceCommands_group hkind, List.pairwise_flatMap]
      refine ⟨ih, horder.imp_of_mem fun {child next} hchild hnext hle cmd hcmd other hother => ?_⟩
      exact ((hchildren child hchild).within cmd hcmd).2.2.trans_le
        (hle.trans ((hchildren next hnext).within other hother).2.1)

/-- Sorting by position brings the commands into the order of the source. -/
theorem Script.sorted (h : Script src n) : ((n.popped.filter fun n => n.kind = .command).insertionSort
    fun n next => n.startByte ≤ next.startByte) = n.sourceCommands := by
  rw [h.popped_filter]
  have htotal : Std.Total fun n next : Node => n.startByte ≤ next.startByte := ⟨fun _ _ => Nat.le_total _ _⟩
  have htrans : IsTrans Node fun n next => n.startByte ≤ next.startByte := ⟨fun _ _ _ => Nat.le_trans⟩
  have hperm := (List.perm_insertionSort (fun n next : Node => n.startByte ≤ next.startByte) n.sourceCommands.reverse).trans
    (List.reverse_perm _)
  refine hperm.eq_of_pairwise (fun cmd other hcmd hother hle hge => ?_) (List.pairwise_insertionSort _ _)
    (h.ordered.imp Nat.le_of_lt)
  -- two commands that start at one byte are one
  have hcmd := hperm.mem_iff.mp hcmd
  by_contra hne
  have hlt : cmd.startByte < other.startByte ∨ other.startByte < cmd.startByte := by
    have hsymm : Std.Symm fun cmd other : Node => cmd.startByte < other.startByte ∨ other.startByte < cmd.startByte :=
      ⟨fun _ _ h => h.symm⟩
    have hpairwise : n.sourceCommands.Pairwise fun cmd other =>
        cmd.startByte < other.startByte ∨ other.startByte < cmd.startByte := h.ordered.imp fun hlt => .inl hlt
    exact hpairwise.forall hcmd hother hne
  omega

/-- The words that are read off a script are those that bash runs exactly if bash removes no backslash from them. -/
theorem plainCommands_eq_iff (h : Script src tree.root) (hfound : tryParseWordOnlyCommandsSequence tree src = some commands) :
    commands = bashScript src tree.root ↔
      ∀ cmd ∈ tree.root.sourceCommands, ∀ word ∈ cmd.children, ∀ part ∈ word.wordParts, partEscapes src part = false := by
  rw [tryParseWordOnlyCommandsSequence] at hfound
  split at hfound
  · cases hfound
  · split at hfound
    · cases hfound
    · simp only [h.sorted] at hfound
      have heq : commands = tree.root.sourceCommands.map (argvOf (rawPart src)) :=
        map_of_mapM (fun cmd hcmd argv hargv => parsePlainCommand_eq (h.within cmd hcmd).1 hargv) hfound
      rw [heq, bashScript, List.map_inj_left]
      exact forall₂_congr fun cmd hcmd => argv_eq_iff (h.within cmd hcmd).1

/-! ## Two scripts -/

theorem plain_of_all {front : Str} (h : (front.all fun c => !specialCharacters.contains c && !isWhitespace c) = true) :
    ∀ c ∈ front, c ∉ specialCharacters ∧ isWhitespace c = false := by
  simpa using h

theorem WordText.of_plain {front back : Str} (h : ∀ c ∈ front, c ∉ specialCharacters ∧ isWhitespace c = false)
    (hback : WordText back) : WordText (front ++ back) := by
  induction front with
  | nil => exact hback
  | cons c front ih =>
      obtain ⟨hc, hspace⟩ := h c (List.mem_cons_self ..)
      exact .plain hc hspace (ih fun c hc => h c (List.mem_cons_of_mem _ hc))

def twoWords (nameEnd argEnd : Nat) : Tree where
  root := .node .program 0 argEnd [.node .command 0 argEnd
    [.node .commandName 0 nameEnd [.node .word 0 nameEnd []], .node .word (nameEnd + 1) argEnd []]]
  hasError := false

theorem script_twoWords {nameEnd argEnd : Nat} {name arg : Str} (hname : slice src 0 nameEnd = some name)
    (harg : slice src (nameEnd + 1) argEnd = some arg) (hnameText : WordText name) (hargText : WordText arg)
    (hlt : 0 < argEnd) : Script src (twoWords nameEnd argEnd).root := by
  refine .group (.inl rfl) (fun child hchild => ?_) (List.pairwise_singleton _ _) fun child hchild => ?_
  · rw [List.mem_singleton.mp hchild]
    exact ⟨Nat.le_refl _, Nat.le_refl _⟩
  · rw [List.mem_singleton.mp hchild]
    refine .command (.command hlt (.part (.word (.inl rfl) hname hnameText)) fun word hword => ?_)
    rw [List.mem_singleton.mp hword]
    exact .part (.word (.inl rfl) harg hargText)

def searchScript : Str := "rg \"a b\" -g'x'|ls"

/-- A double-quoted word, a word and a raw string in one, and a second command. -/
def searchTree : Tree where
  root := .node .program 0 17 [.node .pipeline 0 17 [
    .node .command 0 14 [
      .node .commandName 0 2 [.node .word 0 2 []],
      .node .string 3 8 [.node (.token ['"']) 3 4 [], .node .stringContent 4 7 [], .node (.token ['"']) 7 8 []],
      .node .concatenation 9 14 [.node .word 9 11 [], .node .rawString 11 14 []]],
    .node (.token ['|']) 14 15 [],
    .node .command 15 17 [.node .commandName 15 17 [.node .word 15 17 []]]]]
  hasError := false

theorem isPart_plainWord {startByte endByte : Nat} (htext : slice src startByte endByte = some text)
    (h : (text.all fun c => !specialCharacters.contains c && !isWhitespace c) = true) :
    IsPart src (.node .word startByte endByte []) := by
  refine .word (.inl rfl) htext ?_
  simpa using WordText.of_plain (plain_of_all h) .nil

theorem script_search : Script searchScript searchTree.root := by
  have hrg : IsPart searchScript (.node .word 0 2 []) :=
    isPart_plainWord (show _ = some "rg".toList by decide) (by decide)
  have hls : IsPart searchScript (.node .word 15 17 []) :=
    isPart_plainWord (show _ = some "ls".toList by decide) (by decide)
  have hflag : IsPart searchScript (.node .word 9 11 []) :=
    isPart_plainWord (show _ = some "-g".toList by decide) (by decide)
  have hglob : IsPart searchScript (.node .rawString 11 14 []) :=
    @IsPart.rawString _ 11 14 ['x'] (by decide) (by decide)
  have hquoted : IsPart searchScript (.node .string 3 8
      [.node (.token ['"']) 3 4 [], .node .stringContent 4 7 [], .node (.token ['"']) 7 8 []]) :=
    @IsPart.string _ 3 8 "a b".toList _ (by decide)
      (.plain (by decide) (.plain (by decide) (.plain (by decide) .nil)))
      (by simp [Node.kind, Node.children])
  have hargs : ∀ arg ∈ [.node .string 3 8
      [.node (.token ['"']) 3 4 [], .node .stringContent 4 7 [], .node (.token ['"']) 7 8 []],
      .node .concatenation 9 14 [.node .word 9 11 [], .node .rawString 11 14 []]], IsWord searchScript arg := by
    simp only [List.forall_mem_cons, List.not_mem_nil, false_implies, implies_true, and_true]
    refine ⟨.part hquoted, .concatenation ?_⟩
    simp only [List.forall_mem_cons, List.not_mem_nil, false_implies, implies_true, and_true]
    exact ⟨hflag, hglob⟩
  refine .group (.inl rfl) (by simp [Node.startByte, Node.endByte]) (List.pairwise_singleton _ _) ?_
  simp only [List.mem_singleton, forall_eq]
  refine .group (.inr (.inr rfl)) (by simp [Node.startByte, Node.endByte])
    (by simp [Node.startByte, Node.endByte]) ?_
  simp only [List.forall_mem_cons, List.not_mem_nil, false_implies, implies_true, and_true]
  exact ⟨.command (.command (by decide) (.part hrg) hargs), .token,
    .command (.command (by decide) (.part hls) (by simp))⟩

theorem listing_plainCommands :
    [["rg".toList, "a b".toList, "-gx".toList], ["ls".toList]] = bashScript searchScript searchTree.root ↔
      ∀ cmd ∈ searchTree.root.sourceCommands, ∀ word ∈ cmd.children, ∀ part ∈ word.wordParts,
        partEscapes searchScript part = false :=
  plainCommands_eq_iff script_search (by decide)

/-- A backslash hides an option that bash passes on. -/
theorem hiddenOption_runs :
    ∃ commands, Script "base64 --outpu\\t=x".toList (twoWords 6 18).root ∧
      tryParseWordOnlyCommandsSequence (twoWords 6 18) "base64 --outpu\\t=x".toList = some commands ∧
      commands ≠ bashScript "base64 --outpu\\t=x".toList (twoWords 6 18).root ∧
      commands.all (isSafeToCallWithExec linuxTarget) = true ∧
      (bashScript "base64 --outpu\\t=x".toList (twoWords 6 18).root).all (isSafeToCallWithExec linuxTarget) = false := by
  refine ⟨[["base64".toList, "--outpu\\t=x".toList]], ?_, by decide, by decide, by decide,
    by decide⟩
  refine script_twoWords (show _ = some "base64".toList by decide)
    (show _ = some "--outpu\\t=x".toList by decide) ?_ ?_ (by decide)
  · exact @WordText.of_plain "base64".toList _ (plain_of_all (by decide)) .nil
  · exact @WordText.of_plain "--outpu".toList _ (plain_of_all (by decide))
      (.escape (@WordText.of_plain "=x".toList _ (plain_of_all (by decide)) .nil))

end Codrex.ShellCommand
