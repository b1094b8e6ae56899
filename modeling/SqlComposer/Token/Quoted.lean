import SqlComposer.Text.Cut

/-! Quoted text: strings between `'` or `"`, and identifiers between back-ticks. The delimiter
doubled stands for itself; in strings a backslash gives the next character another meaning. -/
namespace SqlComposer.Quoted

/-- Quoted text read behind its opening delimiter: what it says, and the cut behind its closing
delimiter, or behind the whole text if that never comes. -/
structure Body where
  text : List Char
  cut : Cut
  closed : Bool
  deriving DecidableEq

namespace Body

/-- The text ended before the closing delimiter. -/
def unclosed (cs : List Char) : Body := ⟨[], ⟨cs, []⟩, false⟩

/-- Puts a character, with its written form, in front. -/
def cons (c : Char) (written : List Char) (b : Body) : Body :=
  ⟨c :: b.text, ⟨written ++ b.cut.taken, b.cut.rest⟩, b.closed⟩

@[simp] theorem whole_cons (c : Char) (written : List Char) (b : Body) :
    (b.cons c written).cut.whole = written ++ b.cut.whole := by
  simp [cons, Cut.whole]

end Body

/-- What a backslash makes of the character behind it. -/
def unescape : Char → Char
  | '0' => '\x00'
  | 'b' => '\x08'
  | 'n' => '\n'
  | 'r' => '\r'
  | 't' => '\t'
  | 'Z' => '\x1a'
  | c => c

/-- Reads a string body; `quote` is its delimiter. -/
def string (quote : Char) : List Char → Body
  | [] => .unclosed []
  | ['\\'] => .unclosed ['\\']
  | '\\' :: c :: cs => (string quote cs).cons (unescape c) ['\\', c]
  | [c] => if c = quote then ⟨[], ⟨[c], []⟩, true⟩ else (Body.unclosed []).cons c [c]
  | c :: d :: cs =>
    if c = quote then
      if d = quote then (string quote cs).cons quote [c, d] else ⟨[], ⟨[c], d :: cs⟩, true⟩
    else (string quote (d :: cs)).cons c [c]

/-- Reads an identifier body; a backslash is a character like any other. -/
def identifier : List Char → Body
  | [] => .unclosed []
  | ['`'] => ⟨[], ⟨['`'], []⟩, true⟩
  | '`' :: '`' :: cs => (identifier cs).cons '`' ['`', '`']
  | '`' :: c :: cs => ⟨[], ⟨['`'], c :: cs⟩, true⟩
  | c :: cs => (identifier cs).cons c [c]

theorem whole_string (quote : Char) (cs : List Char) : (string quote cs).cut.whole = cs := by
  fun_induction string quote cs <;> simp_all [Body.unclosed]

theorem whole_identifier (cs : List Char) : (identifier cs).cut.whole = cs := by
  fun_induction identifier cs <;> simp_all [Body.unclosed]

end SqlComposer.Quoted
