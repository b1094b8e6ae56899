import SqlComposer.Template.Engine

/-! A small engine of its own: what its placeholders stand for. It knows names, integers, literals,
attributes and minus signs. An engine of more has filters, operators, calls, lists, numbers with a
point and blocks besides; here whatever has one of these in it is malformed. Values are put in as they
are; a value that looks like a placeholder stays what it is. -/
namespace SqlComposer

namespace Template

inductive Constant where
  | true | false | none
  deriving DecidableEq, Repr

def Constant.text : Constant → String
  | .true => "True"
  | .false => "False"
  | .none => "None"

def Constant.ofName? : String → Option Constant
  | "true" | "True" => some .true
  | "false" | "False" => some .false
  | "none" | "None" => some .none
  | _ => Option.none

inductive Operand where
  | name (s : String)
  | integer (n : Nat)
  | literal (s : String)
  deriving DecidableEq, Repr

/-- What stands between the braces of a placeholder: a value, as often negated as minus signs stand
before it, and attributes of what came of that. -/
structure Expr where
  negations : Nat := 0
  operand : Operand
  attributes : List String := []
  deriving DecidableEq, Repr

inductive Segment where
  | text (s : String)
  | placeholder (e : Expr)
  deriving DecidableEq, Repr

inductive Value where
  | undefined
  | text (s : String)
  | integer (n : Int)
  | function (name : String)
  deriving DecidableEq, Repr

namespace Value

/-- The text in the place of a value. What is undefined leaves nothing, and a function shows where
it is defined. -/
def print : Value → String
  | .undefined => ""
  | .text s => s
  | .integer n => toString n
  | .function name => "minijinja::functions::builtins::" ++ name

/-- No value has attributes, and only what is defined may be asked for one. -/
def attributeOf : Value → Except TemplateFault Value
  | .undefined => .error .attributeOfUndefined
  | _ => .ok .undefined

/-- The greatest integer that can be negated. In a word of 128 bits it is its own negative. -/
def greatestNegated : Int := Nat.pow 2 127

def negate : Value → Except TemplateFault Value
  | .integer n =>
    if n < greatestNegated then .ok (.integer (-n))
    else if n = greatestNegated then .ok (.integer n)
    else .error .noNegative
  | _ => .error .noNegative

def negateTimes : Nat → Value → Except TemplateFault Value
  | 0, v => .ok v
  | n + 1, v => do negateTimes n (← v.negate)

end Value

/-- Constants cannot be bound to anything else; functions can. -/
def lookup (context : Bindings) (head : String) : Value :=
  match Constant.ofName? head, context.get? head with
  | some c, _ => .text c.text
  | none, some s => .text s
  | none, none => if head ∈ predefined then .function head else .undefined

def Operand.value (context : Bindings) : Operand → Value
  | .name s => lookup context s
  | .integer n => .integer n
  | .literal s => .text s

-- a minus binds closer than a dot
def Expr.value (context : Bindings) (e : Expr) : Except TemplateFault Value := do
  let v ← Value.negateTimes e.negations (e.operand.value context)
  e.attributes.foldlM (fun v _ => v.attributeOf) v

def Expr.render (context : Bindings) (e : Expr) : Except TemplateFault String :=
  (e.value context).map Value.print

def Segment.render (context : Bindings) : Segment → Except TemplateFault String
  | .text s => .ok s
  | .placeholder e => e.render context

/-- The first segment that cannot be rendered decides. -/
def renderSegments (context : Bindings) (segments : List Segment) :
    Except TemplateFault String :=
  (segments.mapM (Segment.render context)).map String.join

end Template
end SqlComposer
