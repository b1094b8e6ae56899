import SqlComposer.Text.Printable

/-! Texts written so that each character can be seen and told apart, as log fields show them. -/
namespace SqlComposer.Text

/-- A code point in hexadecimal between braces. -/
def codePoint (c : Char) : List Char :=
  "\\u\x7b".toList ++ Nat.toDigits 16 c.toNat ++ ['}']

def visibleChar : Char → List Char
  | '\x00' => ['\\', '0']
  | '\t' => ['\\', 't']
  | '\r' => ['\\', 'r']
  | '\n' => ['\\', 'n']
  | '\\' => ['\\', '\\']
  | '"' => ['\\', '"']
  | c => if isPrintable c then [c] else codePoint c

/-- A text between quotation marks with all its characters visible. -/
def visible (s : String) : String :=
  String.ofList ('"' :: (s.toList.flatMap visibleChar ++ ['"']))

/-- A text that may be missing. -/
def visibleOption : Option String → String
  | none => "None"
  | some s => "Some(" ++ visible s ++ ")"

end SqlComposer.Text
