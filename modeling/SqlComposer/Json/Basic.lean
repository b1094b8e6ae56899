/-! Reading JSON text from the left. The first thing wrong with a text decides: it ends too
early, it is no JSON at the place reached, or it is JSON of a value that is not asked for. -/
namespace SqlComposer.Json

inductive Fault where
  | truncated
  | malformed
  | unsuitable
  deriving DecidableEq, Repr

/-- A reader takes a value from the front of a text and leaves the rest. -/
abbrev Reader (α : Type) := List Char → Except Fault (α × List Char)

def isBlank (c : Char) : Bool := c = ' ' || c = '\n' || c = '\t' || c = '\r'

def skipBlanks (cs : List Char) : List Char := cs.dropWhile isBlank

/-- Takes one mark, and blanks before it. -/
def expect (mark : Char) (cs : List Char) : Except Fault (List Char) :=
  match skipBlanks cs with
  | [] => .error .truncated
  | c :: rest => if c = mark then .ok rest else .error .malformed

/-- Takes the rest of a word. -/
def word : List Char → List Char → Except Fault (List Char)
  | [], cs => .ok cs
  | _ :: _, [] => .error .truncated
  | w :: ws, c :: cs => if c = w then word ws cs else .error .malformed

/-- What is wrong with a value of another type: its text, if that is no JSON, else its type. -/
def faultOf {α : Type} : Except Fault α → Fault
  | .error f => f
  | .ok _ => .unsuitable

/-- Where the next item of a list starts, if there is one before its closing mark. -/
def nextItem (close : Char) (first : Bool) (cs : List Char) :
    Except Fault (Option (List Char)) :=
  match skipBlanks cs with
  | [] => .error .truncated
  | c :: rest =>
    if c = close then .ok none
    else if first then .ok (some (c :: rest))
    else if c = ',' then
      match skipBlanks rest with
      | [] => .error .truncated
      | d :: rest => if d = close then .error .malformed else .ok (some (d :: rest))
    else .error .malformed

end SqlComposer.Json
