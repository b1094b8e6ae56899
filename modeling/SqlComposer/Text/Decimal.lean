/-! Decimal digits and the numbers that they write. -/
namespace SqlComposer.Text

def appendDigit (n : Nat) (d : Char) : Nat := 10 * n + (d.toNat - '0'.toNat)

def natOfDigits (ds : List Char) : Nat := ds.foldl appendDigit 0

end SqlComposer.Text
