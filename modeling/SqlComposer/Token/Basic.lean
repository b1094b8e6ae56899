import SqlComposer.Text.Position
import SqlComposer.Token.Keyword

/-! Tokens of SQL text, and the faults that a malformed piece of text has instead. -/
namespace SqlComposer

/-- Operators of more than one character. -/
inductive Operator where
  | and | or | notEqual | shiftLeft | shiftRight | lessEqual | greaterEqual | nullSafeEqual
  deriving DecidableEq, Repr

/-- The spelling shown to people; `!=` is shown as `<>`. -/
def Operator.symbol : Operator → String
  | .and => "&&"
  | .or => "||"
  | .notEqual => "<>"
  | .shiftLeft => "<<"
  | .shiftRight => ">>"
  | .lessEqual => "<="
  | .greaterEqual => ">="
  | .nullSafeEqual => "<=>"

/-- Why a piece of text is no token. -/
inductive LexFault where
  | unterminatedString
  | unterminatedComment
  | unterminatedIdentifier
  | emptyIdentifier
  | malformedNumber
  | malformedHex
  | malformedBit
  | unexpectedCharacter (c : Char)
  deriving DecidableEq, Repr

def LexFault.message : LexFault → String
  | .unterminatedString => "unterminated quoted string"
  | .unterminatedComment => "unterminated block comment"
  | .unterminatedIdentifier => "unterminated back-tick identifier"
  | .emptyIdentifier => "empty back-tick identifier"
  | .malformedNumber => "malformed numeric literal"
  | .malformedHex => "malformed hex literal"
  | .malformedBit => "malformed bit literal"
  | .unexpectedCharacter c => s!"unexpected character: {c}"

inductive TokenKind where
  | endOfInput
  | identifier
  | keyword (k : Keyword)
  | string
  | integer
  | float
  | hexNumber
  | hexString
  | bitString
  | argument
  | punct (c : Char)
  | operator (o : Operator)
  | comment
  | fault (f : LexFault)
  deriving DecidableEq

/-- A token with its text, decoded where the kind has a written form of its own, and the place
of its first character. -/
structure Token where
  kind : TokenKind
  text : String
  start : Position
  deriving DecidableEq

namespace Token

/-- The token behind the last one of a text that ends at `p`. -/
def atEnd (p : Position) : Token := ⟨.endOfInput, "", p⟩

/-- How a message names a token; the end of the input has no name. -/
def describe (t : Token) : Option String :=
  match t.kind with
  | .endOfInput => none
  | .punct c => some (String.singleton c)
  | .operator o => some o.symbol
  | .string => some ("\"" ++ t.text ++ "\"")
  | _ => some t.text

theorem describe_eq_none_iff (t : Token) : t.describe = none ↔ t.kind = .endOfInput := by
  obtain ⟨kind, text, start⟩ := t
  cases kind <;> simp [describe]

end Token

/-- A piece of text that is no token, and where it starts. -/
structure LexError where
  fault : LexFault
  start : Position
  deriving DecidableEq

/-- A message followed by the place that it is about. -/
def Position.locate (p : Position) (message : String) : String :=
  s!"{message} at line {p.line}, column {p.column}"

def LexError.message (e : LexError) : String := e.start.locate e.fault.message

end SqlComposer
