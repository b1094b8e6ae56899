import SqlComposer.Text.Cut
import SqlComposer.Token.Basic
import SqlComposer.Token.Character

/-! Number literals: `12`, `1.5`, `.5`, `1e-3`, `0x1F`. A reader takes the longest literal it
can; whether a letter follows, which makes the whole literal malformed, is asked afterwards. -/
namespace SqlComposer.Numeral

def digits (r : Radix) : List Char → Cut := Cut.span r.isDigit

def sign : List Char → Cut := Cut.optional fun c => c = '+' || c = '-'

/-- A letter `e` with what stands for an exponent, or nothing. -/
def exponent : List Char → Cut
  | [] => .nothing []
  | e :: cs =>
    if e = 'e' || e = 'E' then ((sign cs).andThen (digits .decimal)).cons e else .nothing (e :: cs)

/-- A point with the digits behind it, or nothing. -/
def fraction : List Char → Cut
  | '.' :: cs => (digits .decimal cs).cons '.'
  | cs => .nothing cs

/-- Digits, a point and an exponent, each of which may be missing. -/
def decimal (cs : List Char) : Cut :=
  ((digits .decimal cs).andThen fraction).andThen exponent

/-- Whether a number starts here: a digit, or a point before a digit. -/
def startsHere : List Char → Bool
  | '.' :: c :: _ => c.isDigit
  | c :: _ => c.isDigit
  | [] => false

/-- The literal at the front of a text and its kind. -/
def literal : List Char → TokenKind × Cut
  | '0' :: x :: cs =>
    if x = 'x' || x = 'X' then (.hexNumber, ((digits .hexadecimal cs).cons x).cons '0')
    else plain ('0' :: x :: cs)
  | cs => plain cs
where
  /-- A literal of digits alone is an integer. -/
  plain (cs : List Char) : TokenKind × Cut :=
    let cut := decimal cs
    (if cut.taken.all Char.isDigit then .integer else .float, cut)

@[simp] theorem whole_digits (r : Radix) (cs : List Char) : (digits r cs).whole = cs := by
  simp [digits]

@[simp] theorem whole_exponent (cs : List Char) : (exponent cs).whole = cs := by
  cases cs with
  | nil => rfl
  | cons e cs =>
    by_cases h : (e = 'e' || e = 'E') = true
    · simp [exponent, h, Cut.whole_andThen, sign]
    · simp [exponent, h]

@[simp] theorem whole_fraction (cs : List Char) : (fraction cs).whole = cs := by
  unfold fraction; split <;> simp

@[simp] theorem whole_decimal (cs : List Char) : (decimal cs).whole = cs := by
  simp [decimal, Cut.whole_andThen]

/-- The literal is a front of the text. -/
theorem whole_literal (cs : List Char) : (literal cs).2.whole = cs := by
  unfold literal
  split
  · split <;> simp [literal.plain]
  · simp [literal.plain]

theorem taken_decimal_ne_nil {cs : List Char} (h : startsHere cs = true) :
    (decimal cs).taken ≠ [] := by
  unfold startsHere at h
  split at h
  · rename_i c cs
    simp [decimal, Cut.andThen, digits, Cut.span, Radix.isDigit, fraction, Cut.cons]
  · simp [decimal, Cut.andThen, digits, Cut.span, Radix.isDigit, h]
  · cases h

/-- Where a number starts, its literal is not empty. -/
theorem taken_literal_ne_nil {cs : List Char} (h : startsHere cs = true) :
    (literal cs).2.taken ≠ [] := by
  unfold literal
  split
  · split
    · simp [Cut.cons]
    · exact taken_decimal_ne_nil h
  · exact taken_decimal_ne_nil h

theorem kind_literal_ne_endOfInput (cs : List Char) : (literal cs).1 ≠ .endOfInput := by
  have hp : ∀ cs, (literal.plain cs).1 ≠ .endOfInput := fun cs => by
    unfold literal.plain; dsimp only; split <;> simp
  unfold literal
  split
  · split
    · simp
    · exact hp _
  · exact hp _

end SqlComposer.Numeral
