import SqlComposer.Json.Basic
import SqlComposer.Json.Double
import SqlComposer.Text.Decimal

/-! JSON numbers. Only a plain whole number is a value here; any other is read to its end, and is
no number at all if a double cannot hold it. -/
namespace SqlComposer.Json

/-- A number without its sign: the digits before a point, those behind it, and the exponent. -/
structure Numeral where
  whole : List Char
  fraction : List Char := []
  exponent : Option Int := none
  deriving DecidableEq

namespace Numeral

def isPlain (n : Numeral) : Bool := n.fraction.isEmpty && n.exponent.isNone

/-- A significand with as many of the digits behind it as 64 bits can hold, and the digits that
are left over. -/
def extend (significand : Nat) : List Char → Nat × List Char
  | [] => (significand, [])
  | d :: ds =>
    let more := Text.appendDigit significand d
    if more < Nat.pow 2 64 then extend more ds else (significand, d :: ds)

/-- The value of a number: its first digits, and the power of ten they are multiplied with.
Digits that are left over before the point still count as places; those behind it do not. -/
def scaled (n : Numeral) : Nat × Int :=
  let (significand, dropped) := extend 0 n.whole
  let (significand, rest) := extend significand n.fraction
  let places : Int := n.fraction.length - rest.length
  (significand, dropped.length - places + n.exponent.getD 0)

/-- Whether a number is beyond the doubles. Significand and power are rounded before they are
multiplied, and the product once more. -/
def exceedsDouble (n : Numeral) : Bool :=
  let (significand, scale) := n.scaled
  significand ≠ 0 && 0 ≤ scale &&
    (308 < scale ||
      doubleLimit ≤ nearestDouble significand * nearestDouble (Nat.pow 10 scale.toNat))

end Numeral

/-- Digits, of which there is at least one, and the text behind them. -/
def digits (cs : List Char) : Except Fault (List Char × List Char) :=
  match cs.takeWhile Char.isDigit, cs with
  | [], [] => .error .truncated
  | [], _ => .error .malformed
  | ds, _ => .ok (ds, cs.dropWhile Char.isDigit)

/-- The exponent behind its letter. -/
def exponent (cs : List Char) : Except Fault (Int × List Char) := do
  let (negative, cs) : Bool × List Char := match cs with
    | '+' :: r => (false, r)
    | '-' :: r => (true, r)
    | r => (false, r)
  let (ds, rest) ← digits cs
  let n : Int := Text.natOfDigits ds
  return (if negative then -n else n, rest)

def fraction : List Char → Except Fault (List Char × List Char)
  | '.' :: cs => digits cs
  | cs => .ok ([], cs)

def exponent? : List Char → Except Fault (Option Int × List Char)
  | [] => .ok (none, [])
  | e :: cs =>
    if e = 'e' || e = 'E' then (exponent cs).map fun (n, rest) => (some n, rest)
    else .ok (none, e :: cs)

/-- A number without its sign. Only zero itself starts with the digit zero. -/
def numeral (cs : List Char) : Except Fault (Numeral × List Char) := do
  let (whole, cs) ← digits cs
  if whole.length ≠ 1 && whole.head? = some '0' then .error .malformed
  let (fraction, cs) ← fraction cs
  let (exponent, cs) ← exponent? cs
  return (⟨whole, fraction, exponent⟩, cs)

/-- A number, with its value if it is written as digits alone. -/
def number : Reader (Option Nat)
  | cs => do
    let (plain, cs) : Bool × List Char := match cs with
      | '-' :: r => (false, r)
      | r => (true, r)
    let (n, rest) ← numeral cs
    if n.exceedsDouble then .error .malformed
    else return (if plain && n.isPlain then some (Text.natOfDigits n.whole) else none, rest)

end SqlComposer.Json
