import SqlComposer.Token.Stream

/-! Why a directive block cannot be read. A complaint is always about one token: what could have
stood in its place, and what stands there instead. -/
namespace SqlComposer

/-- What the grammar asks for at some place. -/
inductive Expected where
  | openBracket | closeBracket | dash | colon | openParen | closeParen
  | keyword (k : Keyword)
  | string
  | key
  | value
  deriving DecidableEq

namespace Expected

/-- Whether a token of a kind is what is asked for. -/
def accepts : Expected → TokenKind → Bool
  | .openBracket, k => k = .punct '['
  | .closeBracket, k => k = .punct ']'
  | .dash, k => k = .punct '-'
  | .colon, k => k = .punct ':'
  | .openParen, k => k = .punct '('
  | .closeParen, k => k = .punct ')'
  | .keyword w, k => k = .keyword w
  | .string, k => k = .string
  | .key, .identifier => true
  | .key, .keyword _ => true
  | .key, _ => false
  | .value, k => k = .string || k = .keyword .sqlmRef || k = .keyword .sqlmFile

def text : Expected → String
  | .openBracket => "'['"
  | .closeBracket => "']'"
  | .dash => "'-'"
  | .colon => "':'"
  | .openParen => "'('"
  | .closeParen => "')'"
  | .keyword k => "'" ++ k.spelling ++ "'"
  | .string => "a quoted string"
  | .key => "an entry key"
  | .value => "a quoted string, sqlmref(..) or sqlmfile(..)"

theorem accepts_endOfInput (w : Expected) : w.accepts .endOfInput = false := by
  cases w <;> rfl

end Expected

inductive ParseFault where
  | lex (f : LexFault)
  | expected (what : Expected) (found : Option String)
  | unterminatedBlock
  deriving DecidableEq

def ParseFault.message : ParseFault → String
  | .lex f => f.message
  | .expected what none => s!"expected {what.text}, got end of input"
  | .expected what (some t) => s!"expected {what.text}, got '{t}'"
  | .unterminatedBlock => "directive block is missing [sqlmend]"

/-- A fault, and the start of the token it is about. -/
structure ParseError where
  fault : ParseFault
  start : Position
  deriving DecidableEq

namespace ParseError

def message (e : ParseError) : String := e.start.locate e.fault.message

/-- The complaint about a token in the place of something else. Malformed text is reported as
such, whatever was asked for. -/
def unexpected (what : Expected) (t : Token) : ParseError :=
  match t.kind with
  | .fault f => ⟨.lex f, t.start⟩
  | _ => ⟨.expected what t.describe, t.start⟩

end ParseError
end SqlComposer
