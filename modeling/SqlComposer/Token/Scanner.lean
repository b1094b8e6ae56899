import SqlComposer.Text.Bytes
import SqlComposer.Text.Utf8
import SqlComposer.Token.Cursor

/-! Scanning the bytes of a text by their offsets. A scanner keeps all of the bytes and the place where
it stands, and what it reads with an index or a slice may lie outside of them, where scanning ends
with a failure. Bytes are compared as the characters with their numbers, and what a token says is
decoded when it has been collected. -/
namespace SqlComposer

/-- What cannot be read from some bytes, and a difference that would be negative. -/
inductive OutOfRange where
  | index (offset : Nat)
  | slice (start stop : Nat)
  | difference (whole part : Nat)
  deriving DecidableEq

abbrev Checked := Except OutOfRange

namespace Checked

/-- Goes on with what a step gave, and knows that it gave that. -/
def pbind {α β : Type} (x : Checked α) (f : (a : α) → x = .ok a → Checked β) : Checked β :=
  match x with
  | .ok a => f a rfl
  | .error e => .error e

def sub (whole part : Nat) : Checked Nat :=
  if part ≤ whole then .ok (whole - part) else .error (.difference whole part)

end Checked

/-- All bytes of a text, the place where the scanner stands, and how many `?` it has numbered. -/
structure Scanner where
  input : List UInt8
  position : Position := {}
  arguments : Nat := 0
  deriving DecidableEq

namespace Scanner

def ofText (text : String) : Scanner :=
  { input := bytes text, position := { offset := textStart (bytes text) } }

variable (s : Scanner)

def byte (offset : Nat) : Checked UInt8 :=
  match s.input[offset]? with
  | some b => .ok b
  | none => .error (.index offset)

def slice (start stop : Nat) : Checked (List UInt8) :=
  if start ≤ stop ∧ stop ≤ s.input.length then .ok ((s.input.take stop).drop start)
  else .error (.slice start stop)

def peekAt (n : Nat) : Option Char := s.input[s.position.offset + n]?.map Char.ofUInt8

def peek : Option Char := s.peekAt 0

/-- Moves over the next byte, if there is one. -/
def advance : Checked Scanner :=
  if s.position.offset < s.input.length then do
    let b ← s.byte s.position.offset
    return { s with position := s.position.advanceByte b }
  else return s

def left : Nat := s.input.length - s.position.offset

variable {s} {t : Scanner}

theorem offset_advanceByte (p : Position) (b : UInt8) :
    (p.advanceByte b).offset = p.offset + 1 := by
  unfold Position.advanceByte; split <;> rfl

theorem left_of_advance (h : s.advance = .ok t) : t.left = s.left - 1 := by
  unfold advance at h
  split at h
  · cases hb : s.byte s.position.offset with
    | error e => rw [hb] at h; cases h
    | ok b =>
      rw [hb] at h
      cases h
      rw [left, left, offset_advanceByte, Nat.sub_add_eq]
  · cases h
    unfold left
    omega

theorem left_le (h : s.advance = .ok t) : t.left ≤ s.left :=
  left_of_advance h ▸ Nat.sub_le ..

theorem left_lt {c : Char} (hpeek : s.peek = some c) (h : s.advance = .ok t) : t.left < s.left := by
  obtain ⟨b, hb, -⟩ := Option.map_eq_some_iff.1 hpeek
  obtain ⟨hlt, -⟩ := List.getElem?_eq_some_iff.1 hb
  rw [left_of_advance h, left]
  omega

/-- Moves over bytes as long as they are of a kind. -/
def passWhile (p : Char → Bool) (s : Scanner) : Checked Scanner :=
  match _ : s.peek with
  | none => pure s
  | some c => if p c then s.advance.pbind fun t _ => t.passWhile p else pure s
termination_by s.left
decreasing_by exact left_lt ‹_› ‹_›

def advanceTimes : Nat → Scanner → Checked Scanner
  | 0, s => pure s
  | n + 1, s => do advanceTimes n (← s.advance)

end Scanner

/-- A token that says what some bytes say. -/
def Token.ofBytes (kind : TokenKind) (bs : List UInt8) (start : Position) : Token :=
  ⟨kind, String.ofList (Utf8.decode bs), start⟩

namespace Scanner
variable (s : Scanner) (start : Position)

/-- The token of the bytes that have been passed over. -/
def raw (kind : TokenKind) : Checked (Token × Scanner) := do
  return (.ofBytes kind (← s.slice start.offset s.position.offset) start, s)

/-- An operator if its last character follows, and something else without it. -/
def operatorOr (last : Char) (o : Operator) (otherwise : TokenKind) : Checked (Token × Scanner) := do
  if s.peek = some last then (← s.advance).raw start (.operator o) else s.raw start otherwise

/-- Behind the first byte of a character that starts no token, moves over its other bytes. -/
def unexpected : Checked (Token × Scanner) := do
  let stop := min (start.offset + 4) s.input.length
  let c := (Utf8.decode (← s.slice start.offset stop)).headD Utf8.replacement
  let width := min c.utf8Size (← Checked.sub s.input.length start.offset)
  return (⟨.fault (.unexpectedCharacter c), String.ofList [c], start⟩, ← s.advanceTimes (width - 1))

/-- The digits of `x'..'` or `b'..'`, behind the opening quote. -/
def scanQuotedDigits (radix : Radix) (kind : TokenKind) (fault : LexFault) :
    Checked (Token × Scanner) := do
  let t ← s.passWhile radix.isDigit
  let digits ← t.slice s.position.offset t.position.offset
  if t.peek = some '\'' then
    let odd := radix = .hexadecimal ∧ digits.length % 2 ≠ 0
    return (.ofBytes (if odd then .fault fault else kind) digits start, ← t.advance)
  else
    return (.ofBytes (.fault fault) digits start, t)

def scanPlainWord : Checked (Token × Scanner) := do
  let t ← s.passWhile isWordPart
  let text := String.ofList (Utf8.decode (← t.slice start.offset t.position.offset))
  return (⟨(Keyword.ofWord? text).elim .identifier .keyword, text, start⟩, t)

/-- A word, or a literal that starts like one. -/
def scanWord : Checked (Token × Scanner) := do
  let first := Char.ofUInt8 (← s.byte s.position.offset)
  if s.peekAt 1 = some '\'' ∧ (first = 'x' ∨ first = 'X') then
    (← (← s.advance).advance).scanQuotedDigits start .hexadecimal .hexString .malformedHex
  else if s.peekAt 1 = some '\'' ∧ (first = 'b' ∨ first = 'B') then
    (← (← s.advance).advance).scanQuotedDigits start .binary .bitString .malformedBit
  else
    s.scanPlainWord start

/-- The end of a number, which no letter may follow. -/
def finishNumber (kind : TokenKind) : Checked (Token × Scanner) := do
  s.raw start (if s.peek.any isLetter then .fault .malformedNumber else kind)

def passSign : Checked Scanner :=
  if s.peek = some '+' ∨ s.peek = some '-' then s.advance else pure s

/-- What may stand behind the digits of a number and their point. -/
def scanExponent (kind : TokenKind) : Checked (Token × Scanner) := do
  if s.peek = some 'e' ∨ s.peek = some 'E' then
    let t ← (← s.advance).passSign
    (← t.passWhile (Radix.isDigit .decimal)).finishNumber start .float
  else
    s.finishNumber start kind

def scanNumber : Checked (Token × Scanner) := do
  if s.peek = some '.' then
    (← (← s.advance).passWhile (Radix.isDigit .decimal)).scanExponent start .float
  else if s.peek = some '0' ∧ (s.peekAt 1 = some 'x' ∨ s.peekAt 1 = some 'X') then
    let t ← (← (← s.advance).advance).passWhile (Radix.isDigit .hexadecimal)
    t.finishNumber start .hexNumber
  else
    let t ← s.passWhile (Radix.isDigit .decimal)
    if t.peek = some '.' then
      (← (← t.advance).passWhile (Radix.isDigit .decimal)).scanExponent start .float
    else
      t.scanExponent start .integer

/-- A string behind its opening delimiter; `value` are the bytes that it says so far. -/
def scanString (quote : Char) (value : List Char) (s : Scanner) : Checked (Token × Scanner) :=
  match _ : s.peek with
  | none => pure (.ofBytes (.fault .unterminatedString) (unlatin value) start, s)
  | some c =>
    s.advance.pbind fun t _ =>
      if c = '\\' then
        match t.peek with
        | none => pure (.ofBytes (.fault .unterminatedString) (unlatin value) start, t)
        | some escaped =>
          t.advance.pbind fun u _ => u.scanString quote (value ++ [Quoted.unescape escaped])
      else if c = quote then
        if t.peek = some quote then
          t.advance.pbind fun u _ => u.scanString quote (value ++ [quote])
        else pure (.ofBytes .string (unlatin value) start, t)
      else t.scanString quote (value ++ [c])
termination_by s.left
decreasing_by
  · exact Nat.lt_of_le_of_lt (left_le ‹t.advance = .ok u›) (left_lt ‹_› ‹_›)
  · exact Nat.lt_of_le_of_lt (left_le ‹t.advance = .ok u›) (left_lt ‹_› ‹_›)
  · exact left_lt ‹_› ‹_›

/-- An identifier behind its opening back-tick. -/
def scanBacktick (value : List Char) (s : Scanner) : Checked (Token × Scanner) :=
  match _ : s.peek with
  | none => pure (.ofBytes (.fault .unterminatedIdentifier) (unlatin value) start, s)
  | some c =>
    s.advance.pbind fun t _ =>
      if c = '`' then
        if t.peek = some '`' then
          t.advance.pbind fun u _ => u.scanBacktick (value ++ ['`'])
        else
          let kind := if value.isEmpty then .fault .emptyIdentifier else .identifier
          pure (.ofBytes kind (unlatin value) start, t)
      else t.scanBacktick (value ++ [c])
termination_by s.left
decreasing_by
  · exact Nat.lt_of_le_of_lt (left_le ‹t.advance = .ok u›) (left_lt ‹_› ‹_›)
  · exact left_lt ‹_› ‹_›

def scanLineComment (s : Scanner) : Checked (Token × Scanner) :=
  match _ : s.peek with
  | none => s.raw start .comment
  | some c =>
    s.advance.pbind fun t _ =>
      if c = '\n' then t.raw start .comment else t.scanLineComment
termination_by s.left
decreasing_by exact left_lt ‹_› ‹_›

def scanThroughClosing (s : Scanner) : Checked (Token × Scanner) :=
  match _ : s.peek with
  | none => s.raw start (.fault .unterminatedComment)
  | some c =>
    if c = '*' ∧ s.peekAt 1 = some '/' then do
      (← (← s.advance).advance).raw start .comment
    else s.advance.pbind fun t _ => t.scanThroughClosing
termination_by s.left
decreasing_by exact left_lt ‹_› ‹_›

/-- Whether the word of a directive block stands behind the next byte. -/
def wordFollows : Bool :=
  let start := s.position.offset + 1
  match s.slice start (start + Comment.blockWord.length) with
  | .ok word => Text.lower (latin word) = Comment.blockWord
  | .error _ => false

/-- A comment behind its `/*`, or the first bracket of a directive block. -/
def scanBlockComment : Checked (Token × Scanner) := do
  let t ← s.passWhile isBlank
  if t.peek = some '[' ∧ t.wordFollows then
    (← t.advance).raw t.position (.punct '[')
  else
    t.scanThroughClosing start

/-- What starts with neither a letter nor a number, behind its first character. -/
def scanSymbol (c : Char) : Checked (Token × Scanner) := do
  match c with
  | '=' | ',' | ';' | '(' | ')' | '+' | '*' | '%' | '^' | '~' | '[' | ']' | ':' | '{' | '}'
  | '.' => s.raw start (.punct c)
  | '&' => s.operatorOr start '&' .and (.punct c)
  | '|' => s.operatorOr start '|' .or (.punct c)
  | '!' => s.operatorOr start '=' .notEqual (.punct c)
  | '?' =>
    let n := s.arguments + 1
    return (⟨.argument, Cursor.argumentName n, start⟩, { s with arguments := n })
  | '/' =>
    if s.peek = some '/' then (← s.advance).scanLineComment start
    else if s.peek = some '*' then (← s.advance).scanBlockComment start
    else s.raw start (.punct c)
  | '#' => s.scanLineComment start
  | '-' =>
    if s.peek = some '-' then (← s.advance).scanLineComment start
    else s.raw start (.punct c)
  | '<' =>
    if s.peek = some '>' then (← s.advance).raw start (.operator .notEqual)
    else if s.peek = some '<' then (← s.advance).raw start (.operator .shiftLeft)
    else if s.peek = some '=' then
      (← s.advance).operatorOr start '>' .nullSafeEqual (.operator .lessEqual)
    else s.raw start (.punct c)
  | '>' =>
    if s.peek = some '=' then (← s.advance).raw start (.operator .greaterEqual)
    else if s.peek = some '>' then (← s.advance).raw start (.operator .shiftRight)
    else s.raw start (.punct c)
  | '\'' | '"' => s.scanString start c []
  | '`' => s.scanBacktick start []
  | _ => s.unexpected start

/-- The token behind a gap of blanks. -/
def scanToken : Checked (Token × Scanner) := do
  let start := s.position
  match s.peek with
  | none => return (⟨.endOfInput, "", start⟩, s)
  | some c =>
    if isLetter c then s.scanWord start
    else if c.isDigit ∨ (c = '.' ∧ (s.peekAt 1).any Char.isDigit) then s.scanNumber start
    else (← s.advance).scanSymbol start c

/-- The next token, and the scanner behind it. -/
def scan : Checked (Token × Scanner) := do (← s.passWhile isBlank).scanToken

end Scanner
end SqlComposer
