import Codrex.Lib.Utf8
import Codrex.StreamParser.InlineHiddenTag

/-!
# Streamed bytes (`utils/stream-parser/src/utf8_stream.rs`)

A parser of text behind one that takes bytes and keeps back the start of a code point.
-/

namespace Codrex.StreamParser

open Text Utf8

class StreamTextParser (π : Type) (ε : outParam Type) where
  pushStr : π → Str → π × StreamTextChunk ε
  finish : π → π × StreamTextChunk ε

instance {τ : Type} : StreamTextParser (InlineHiddenTagParser τ) (ExtractedInlineTag τ) :=
  ⟨InlineHiddenTagParser.pushStr, InlineHiddenTagParser.finish⟩

instance : StreamTextParser CitationStreamParser Str := ⟨CitationStreamParser.pushStr, CitationStreamParser.finish⟩

/-! ## `std::str::from_utf8` -/

/-- There is no `errorLen` where the bytes end too early. -/
structure Utf8Error where
  validUpTo : Nat
  errorLen : Option Nat
  deriving DecidableEq

def fromUtf8 (bytes : Bytes) : Except Utf8Error Str :=
  match decode bytes with
  | (text, .done) => .ok text
  | (text, .incomplete) => .error ⟨(encode text).length, none⟩
  | (text, .invalid len) => .error ⟨(encode text).length, some len⟩

/-! ## The parser -/

inductive Utf8StreamParserError
  | invalidUtf8 (validUpTo errorLen : Nat)
  | incompleteUtf8AtEof
  deriving DecidableEq

structure Utf8StreamParser (π : Type) where
  inner : π
  pendingUtf8 : Bytes
  deriving DecidableEq

namespace Utf8StreamParser

variable {π ε : Type} [StreamTextParser π ε]

def new (inner : π) : Utf8StreamParser π := ⟨inner, []⟩

def pushBytes (parser : Utf8StreamParser π) (chunk : Bytes) :
    Utf8StreamParser π × Except Utf8StreamParserError (StreamTextChunk ε) :=
  let oldLen := parser.pendingUtf8.length
  let pendingUtf8 := parser.pendingUtf8 ++ chunk
  match fromUtf8 pendingUtf8 with
  | .ok text =>
      let (inner, out) := StreamTextParser.pushStr parser.inner text
      (⟨inner, []⟩, .ok out)
  | .error err =>
      match err.errorLen with
      | some errorLen => ({ parser with pendingUtf8 := pendingUtf8.take oldLen }, .error (.invalidUtf8 err.validUpTo errorLen))
      | none =>
          let validUpTo := err.validUpTo
          if validUpTo = 0 then ({ parser with pendingUtf8 }, .ok .default)
          else match fromUtf8 (pendingUtf8.take validUpTo) with
            | .ok text =>
                let (inner, out) := StreamTextParser.pushStr parser.inner text
                (⟨inner, pendingUtf8.drop validUpTo⟩, .ok out)
            | .error prefixErr =>
                ({ parser with pendingUtf8 := pendingUtf8.take oldLen },
                  .error (.invalidUtf8 prefixErr.validUpTo (prefixErr.errorLen.getD 0)))

def finish (parser : Utf8StreamParser π) : Utf8StreamParser π × Except Utf8StreamParserError (StreamTextChunk ε) :=
  if parser.pendingUtf8 = [] then
    let (inner, tail) := StreamTextParser.finish parser.inner
    (⟨inner, []⟩, .ok (StreamTextChunk.default.append tail))
  else match fromUtf8 parser.pendingUtf8 with
    | .error err =>
        match err.errorLen with
        | some errorLen => (parser, .error (.invalidUtf8 err.validUpTo errorLen))
        | none => (parser, .error .incompleteUtf8AtEof)
    | .ok text =>
        let (inner, out) := StreamTextParser.pushStr parser.inner text
        let (inner, tail) := StreamTextParser.finish inner
        (⟨inner, []⟩, .ok (out.append tail))

end Utf8StreamParser

end Codrex.StreamParser
