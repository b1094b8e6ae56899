import SqlComposer.Directive.Reader

/-! The directives of a script. A script without a directive block has none; a block is read up
to its last bracket, and whatever stands behind it does not matter. -/
namespace SqlComposer

/-- The words of directives that are passed over, and why. -/
inductive Remark where
  | noBlock
  | description (d : Description)
  | unknownSection (head : Token)
  deriving DecidableEq

/-- What is read of a script: its directives, and where the block's last bracket stands. -/
structure Script where
  directives : Directives := {}
  closing : Option Token := none
  deriving DecidableEq

namespace Script

/-- The header `[sqlmbegin] [script]`. -/
def readHeader (s : TokenStream) : Except ParseError TokenStream := do
  let s ← s.expect .openBracket
  let s ← s.expect (.keyword .sqlmBegin)
  let s ← s.expect .closeBracket
  let s ← s.expect .openBracket
  let s ← s.expect (.keyword .script)
  s.expect .closeBracket

/-- Whether a stream starts with a directive block. -/
def opensBlock (s : TokenStream) : Bool :=
  s.current.kind = .punct '[' && s.peek.kind = .keyword .sqlmBegin

/-- What is remarked on, and what is read. Remarks come in the order of the text, also before a
complaint. -/
def readStream (s : TokenStream) : List Remark × Except ParseError Script :=
  if !opensBlock s then ([.noBlock], .ok {})
  else
    match readHeader s with
    | .error e => ([], .error e)
    | .ok s =>
      let (description, s) := Description.read s
      match s.skipSection with
      | .error e => ([.description description], .error e)
      | .ok s =>
        let (sections, finish) := Section.readAll s
        let unknown : Section → Option Remark
          | .unknown head => some (.unknownSection head)
          | .environment .. => none
        let start : Directives := { description := description.value }
        (.description description :: sections.filterMap unknown,
          finish.map fun closing => ⟨sections.foldl Section.apply start, some closing.current⟩)

def ofText (text : String) : Except ParseError Script := (readStream (.ofText text)).2

def remarks (text : String) : List Remark := (readStream (.ofText text)).1

end Script

def Directives.parse (text : String) : Except ParseError Directives :=
  (Script.ofText text).map (·.directives)

/-- The name in a line `- name : "..." "..."`. -/
def parseName (line : String) : Except ParseError String := do
  let s ← (TokenStream.ofText line).expect .dash
  let s ← s.expect (.keyword .name)
  let s ← s.expect .colon
  let _ ← s.expect .string
  return s.takeStrings.1

end SqlComposer
