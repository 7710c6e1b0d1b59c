import LineLexer.Position

/-! Why a scan fails, and what a diagnostic says. An error carries the text it is about and the
place where that text begins. -/

namespace LineLexer

inductive LexErrorKind where
  /-- a second point in a number -/
  | malformedNumber
  | numberOutOfRange
  | unterminatedString
  /-- a character that begins nothing -/
  | unrecognizedCharacter
  /-- a token for a line that the table does not have -/
  | internal
deriving DecidableEq, Repr

namespace LexErrorKind

def all : List LexErrorKind :=
  [malformedNumber, numberOutOfRange, unterminatedString, unrecognizedCharacter, internal]

def name : LexErrorKind → String
  | malformedNumber => "MalformedNumericLiteral"
  | numberOutOfRange => "NumberOutOfRange"
  | unterminatedString => "UnterminatedString"
  | unrecognizedCharacter => "UnrecognizedCharacter"
  | internal => "InternalError"

def describe : LexErrorKind → String
  | malformedNumber => "malformed numeric literal"
  | numberOutOfRange => "integer literal out of range"
  | unterminatedString => "unterminated string literal"
  | unrecognizedCharacter => "unrecognized character"
  | internal => "internal lexer error"

end LexErrorKind

structure LexError where
  kind : LexErrorKind
  position : Position
  text : String
deriving DecidableEq, Repr

namespace LexError

def unrecognized (p : Position) (c : Char) : LexError :=
  ⟨.unrecognizedCharacter, p, String.singleton c⟩

def message (e : LexError) : String :=
  e.kind.describe ++ " '" ++ e.text ++ "' at " ++ e.position.describe

end LexError

end LineLexer
