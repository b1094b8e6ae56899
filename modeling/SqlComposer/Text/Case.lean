/-! ASCII letter case. Words are compared without regard to it; letters outside ASCII have no
case here, so they only equal themselves. -/
namespace SqlComposer.Text

def lower (cs : List Char) : List Char := cs.map Char.toLower

@[simp] theorem length_lower (cs : List Char) : (lower cs).length = cs.length := by
  simp [lower]

def lowerString (s : String) : String := String.ofList (lower s.toList)

end SqlComposer.Text
