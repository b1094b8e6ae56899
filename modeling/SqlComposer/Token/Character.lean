/-! Character classes of SQL text. All are ASCII: any other character stands only in strings,
quoted identifiers and comments. -/
namespace SqlComposer

/-- White space between tokens. -/
def isBlank (c : Char) : Bool := c = ' ' || c = '\n' || c = '\r' || c = '\t'

/-- What a word starts with. -/
def isLetter (c : Char) : Bool := c.isAlpha || c = '_' || c = '@'

/-- What a word goes on with. -/
def isWordPart (c : Char) : Bool := isLetter c || c.isDigit

inductive Radix where
  | binary | decimal | hexadecimal
  deriving DecidableEq, Repr

def Radix.isDigit : Radix → Char → Bool
  | .binary, c => c = '0' || c = '1'
  | .decimal, c => c.isDigit
  | .hexadecimal, c => c.isDigit || ('a' ≤ c && c ≤ 'f') || ('A' ≤ c && c ≤ 'F')

end SqlComposer
