/-
Why a JSON text is refused, and where. A reader works on what is left of its input, so it reports
how many bytes were left; `Position.ofUnread` turns that into a line and a column of the input.
-/
import ShapeLedger.Text.Ascii

namespace ShapeLedger.Json

abbrev Bytes := List UInt8

inductive Reason where
  | listEnds
  | objectEnds
  | stringEnds
  | valueEnds
  | expectedColon
  | expectedListCommaOrEnd
  | expectedObjectCommaOrEnd
  | expectedIdent
  | expectedValue
  | invalidEscape
  | invalidNumber
  | numberOutOfRange
  | invalidCodePoint
  | controlCharacter
  | keyNotString
  | loneSurrogate
  | trailingComma
  | trailingCharacters
  | hexEscapeEnds
  | nestingTooDeep
deriving DecidableEq, Repr

namespace Reason

/-- The input ended before the document did. -/
def isEarlyEnd : Reason → Bool
  | listEnds | objectEnds | stringEnds | valueEnds => true
  | _ => false

def text : Reason → String
  | listEnds => "EOF while parsing a list"
  | objectEnds => "EOF while parsing an object"
  | stringEnds => "EOF while parsing a string"
  | valueEnds => "EOF while parsing a value"
  | expectedColon => "expected `:`"
  | expectedListCommaOrEnd => "expected `,` or `]`"
  | expectedObjectCommaOrEnd => "expected `,` or `\x7d`"
  | expectedIdent => "expected ident"
  | expectedValue => "expected value"
  | invalidEscape => "invalid escape"
  | invalidNumber => "invalid number"
  | numberOutOfRange => "number out of range"
  | invalidCodePoint => "invalid unicode code point"
  | controlCharacter => "control character (\\u0000-\\u001F) found while parsing a string"
  | keyNotString => "key must be a string"
  | loneSurrogate => "lone leading surrogate in hex escape"
  | trailingComma => "trailing comma"
  | trailingCharacters => "trailing characters"
  | hexEscapeEnds => "unexpected end of hex escape"
  | nestingTooDeep => "recursion limit exceeded"

end Reason

/-- A refusal while reading: `unread` bytes of the input follow the place it is reported at. -/
structure Fault where
  reason : Reason
  unread : Nat
deriving DecidableEq, Repr

/-- A place in a text: lines count from one, the column counts the bytes read of the line. -/
structure Position where
  line : Nat
  column : Nat
deriving DecidableEq, Repr

namespace Position

/-- The place after the bytes `before`. -/
def after (before : Bytes) : Position :=
  ⟨before.count Ascii.lineFeed + 1, (before.reverse.takeWhile (· ≠ Ascii.lineFeed)).length⟩

def ofUnread (input : Bytes) (unread : Nat) : Position :=
  after (input.take (input.length - unread))

def suffix (p : Position) : String :=
  " at line " ++ toString p.line ++ " column " ++ toString p.column

end Position

/-- A refused document. -/
structure Error where
  reason : Reason
  position : Position
deriving DecidableEq, Repr

namespace Error

def locate (input : Bytes) (f : Fault) : Error := ⟨f.reason, Position.ofUnread input f.unread⟩

def message (e : Error) : String := e.reason.text ++ e.position.suffix

end Error

end ShapeLedger.Json
