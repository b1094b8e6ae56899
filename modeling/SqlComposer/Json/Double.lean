/-! Whole numbers as doubles hold them: with 53 significant bits, rounded to the nearest such
number, and no greater than a limit. -/
namespace SqlComposer.Json

/-- What the last significant bit of a number counts for. -/
def bitUnit (n : Nat) : Nat := Nat.pow 2 (n.log2 + 1 - 53)

/-- The nearest number that a double holds, were there no limit. A half goes to the even
neighbour. -/
def nearestDouble (n : Nat) : Nat :=
  let unit := bitUnit n
  let below := n / unit
  let twice := 2 * (n % unit)
  unit * (if unit < twice || (unit = twice && below % 2 = 1) then below + 1 else below)

/-- The least number that rounds to a double's infinity. -/
def doubleLimit : Nat := Nat.pow 2 1024 - Nat.pow 2 970

end SqlComposer.Json
