import SqlComposer.Bindings

/-! Templates are rendered by an engine, which is no part of this library: whatever engine it is given,
it asks for the same marks of tags, and for all that a template ends with. -/
namespace SqlComposer

inductive TemplateFault where
  | malformed
  | attributeOfUndefined
  | noNegative
  | other (kind : String)
  deriving DecidableEq, Repr

namespace Template

/-- What opens the tags of one kind, and what closes them. -/
structure Marks where
  opening : String
  closing : String
  deriving DecidableEq, Repr

structure Settings where
  block : Marks
  placeholder : Marks
  comment : Marks
  keepsLastLineFeed : Bool
  deriving DecidableEq, Repr

/-- Makes a text of a template when names are bound to texts. -/
structure Engine where
  render : Settings → Bindings → String → Except TemplateFault String

/-- Placeholders stand between double braces; blocks and comments have marks that never occur in
SQL. -/
def settings : Settings where
  block := ⟨"\x00\x7b%", "%\x7d\x00"⟩
  placeholder := ⟨"\x7b\x7b", "\x7d\x7d"⟩
  comment := ⟨"\x00\x7b#", "#\x7d\x00"⟩
  keepsLastLineFeed := true

def render (engine : Engine) (context : Bindings) (text : String) : Except TemplateFault String :=
  engine.render settings context text

/-- What separates the words of a placeholder. -/
def isSeparator (c : Char) : Bool :=
  c = ' ' || c = '\t' || c = '\n' || c = '\r' || c = '\x0c'

def startsName (c : Char) : Bool := c.isAlpha || c = '_'

def isNamePart (c : Char) : Bool := c.isAlphanum || c = '_'

/-- The form of names in placeholders. -/
def isName (s : String) : Bool :=
  match s.toList with
  | [] => false
  | c :: cs => startsName c && cs.all isNamePart

/-- The words that have the form of names and mean something else. -/
def reserved : List String := ["true", "True", "false", "False", "none", "None", "not"]

/-- What stands for a function of the engine as long as nothing else is bound to it. -/
def predefined : List String := ["range", "dict", "debug", "namespace"]

/-- The names that stand for what they are bound to. -/
def isAddressable (s : String) : Bool := isName s && s ∉ reserved

/-- A placeholder with a name in it. -/
def placeholder (name : String) : String := "\x7b\x7b " ++ name ++ " \x7d\x7d"

end Template
end SqlComposer
