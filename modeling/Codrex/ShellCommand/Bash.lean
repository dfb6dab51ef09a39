import Mathlib.Data.List.Sort
import Codrex.Lib.BytePositions

/-!
# Plain commands of a script (`shell-command/src/bash.rs`)

A script has been parsed by tree-sitter. Here the words are read off its tree.
-/

namespace Codrex.ShellCommand

open Text

/-! ## Trees -/

/-- The kinds that are looked for, and all others by their names. Tokens are the nodes without a name. -/
inductive Kind
  | program
  | list
  | pipeline
  | command
  | commandName
  | word
  | string
  | stringContent
  | rawString
  | number
  | concatenation
  | other (name : Str)
  | token (text : Str)
  deriving DecidableEq

inductive Node
  | node (kind : Kind) (startByte endByte : Nat) (children : List Node)

structure Tree where
  root : Node
  hasError : Bool

namespace Node

def kind : Node → Kind
  | node kind _ _ _ => kind

def startByte : Node → Nat
  | node _ startByte _ _ => startByte

def endByte : Node → Nat
  | node _ _ endByte _ => endByte

def children : Node → List Node
  | node _ _ _ children => children

def isNamed (n : Node) : Bool := !n.kind matches .token _

def namedChildren (n : Node) : List Node := n.children.filter isNamed

def utf8Text (n : Node) (src : Str) : Option Str := slice src n.startByte n.endByte

mutual
/-- The nodes as they come off a stack: the children of a node last to first. -/
def popped : Node → List Node
  | node kind startByte endByte children => node kind startByte endByte children :: poppedAll children

def poppedAll : List Node → List Node
  | [] => []
  | child :: children => poppedAll children ++ popped child
end

end Node

/-! ## Words -/

def parseDoubleQuotedString (n : Node) (src : Str) : Option Str :=
  if n.kind ≠ .string then none
  else if n.namedChildren.any fun part => part.kind ≠ .stringContent then none
  else do
    let raw ← n.utf8Text src
    let text ← stripPrefix "\"".toList raw
    stripSuffix "\"".toList text

def parseRawString (n : Node) (src : Str) : Option Str :=
  if n.kind ≠ .rawString then none
  else do
    let rawString ← n.utf8Text src
    let s ← stripPrefix "'".toList rawString
    stripSuffix "'".toList s

def parsePart (part : Node) (src : Str) : Option Str :=
  match part.kind with
  | .word | .number => part.utf8Text src
  | .string => parseDoubleQuotedString part src
  | .rawString => parseRawString part src
  | _ => none

def parseWord (child : Node) (src : Str) : Option Str :=
  match child.kind with
  | .commandName => child.namedChildren.head?.bind fun wordNode =>
      if wordNode.kind ≠ .word then none else wordNode.utf8Text src
  | .concatenation => (child.namedChildren.mapM (parsePart · src)).bind fun parts =>
      if parts.flatten = [] then none else some parts.flatten
  | _ => parsePart child src

def parsePlainCommandFromNode (cmd : Node) (src : Str) : Option (List Str) :=
  if cmd.kind ≠ .command then none else cmd.namedChildren.mapM (parseWord · src)

/-! ## Scripts -/

def allowedPunctTokens : List Str := ["&&", "||", ";", "|", "\"", "'"].map String.toList

def allowedNode (n : Node) : Bool :=
  match n.kind with
  | .other _ => false
  | .token kind =>
      if (kind.any fun c => c ∈ "&;|".toList) && !decide (kind ∈ allowedPunctTokens) then false
      else kind ∈ allowedPunctTokens || trim kind = []
  | _ => true

def tryParseWordOnlyCommandsSequence (tree : Tree) (src : Str) : Option (List (List Str)) :=
  if tree.hasError then none
  else if !tree.root.popped.all allowedNode then none
  else
    let commandNodes := tree.root.popped.filter fun n => n.kind = .command
    (commandNodes.insertionSort fun n next => n.startByte ≤ next.startByte).mapM (parsePlainCommandFromNode · src)

end Codrex.ShellCommand
