/-! Places in a text. Offsets and columns count UTF-8 bytes, so a place can be handed to any
tool that reads the file; moving over two pieces one after the other is moving over both. -/
namespace SqlComposer

/-- A byte offset from the start of a text, with its line and byte column, both from 1. -/
structure Position where
  offset : Nat := 0
  line : Nat := 1
  column : Nat := 1
  deriving DecidableEq, Repr, Inhabited

namespace Position

/-- The place behind one character; a line ends with its line feed. -/
def advance (p : Position) (c : Char) : Position :=
  if c = '\n' then ⟨p.offset + 1, p.line + 1, 1⟩
  else ⟨p.offset + c.utf8Size, p.line, p.column + c.utf8Size⟩

def advanceOver (p : Position) (cs : List Char) : Position := cs.foldl advance p

@[simp] theorem advanceOver_nil (p : Position) : p.advanceOver [] = p := rfl

@[simp] theorem advanceOver_cons (p : Position) (c : Char) (cs : List Char) :
    p.advanceOver (c :: cs) = (p.advance c).advanceOver cs := rfl

theorem advanceOver_append (p : Position) (xs ys : List Char) :
    p.advanceOver (xs ++ ys) = (p.advanceOver xs).advanceOver ys :=
  List.foldl_append ..

theorem offset_advance (p : Position) (c : Char) :
    (p.advance c).offset = p.offset + c.utf8Size := by
  by_cases h : c = '\n'
  · subst h; rfl
  · simp [advance, h]

theorem line_advance (p : Position) (c : Char) :
    (p.advance c).line = p.line + if c = '\n' then 1 else 0 := by
  by_cases h : c = '\n' <;> simp [advance, h]

end Position
end SqlComposer
