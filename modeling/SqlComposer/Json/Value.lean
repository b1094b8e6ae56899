import SqlComposer.Json.Number
import SqlComposer.Json.Text

/-! JSON values of a type that is asked for, and values that are passed over. -/
namespace SqlComposer.Json

/-- What is wrong with the value at the front of a text, when a value of another type is asked
for. Lists and objects are not looked into. -/
def otherType : List Char → Fault
  | [] => .truncated
  | 'n' :: rest => faultOf (word "ull".toList rest)
  | 't' :: rest => faultOf (word "rue".toList rest)
  | 'f' :: rest => faultOf (word "alse".toList rest)
  | '"' :: rest => faultOf (text true rest)
  | '[' :: _ => .unsuitable
  | '\x7b' :: _ => .unsuitable
  | c :: rest => if c = '-' || c.isDigit then faultOf (number (c :: rest)) else .malformed

def string : Reader String
  | cs =>
    match skipBlanks cs with
    | '"' :: rest => (text true rest).map fun r => (String.ofList r.1, r.2)
    | cs => .error (otherType cs)

def word32 : Reader UInt32
  | cs =>
    match skipBlanks cs with
    | [] => .error .truncated
    | c :: rest =>
      if c = '-' || c.isDigit then do
        match ← number (c :: rest) with
        | (some n, rest) =>
          if n < UInt32.size then return (UInt32.ofNat n, rest) else .error .unsuitable
        | (none, _) => .error .unsuitable
      else .error (otherType (c :: rest))

def bool : Reader Bool
  | cs =>
    match skipBlanks cs with
    | 't' :: rest => (word "rue".toList rest).map (true, ·)
    | 'f' :: rest => (word "alse".toList rest).map (false, ·)
    | cs => .error (otherType cs)

/-- The key of an object's member, with the colon behind it left to be read. -/
def key : Reader String
  | '"' :: rest => (text true rest).map fun r => (String.ofList r.1, r.2)
  | _ => .error .malformed

/-- Reads the items of a list or object into a state, up to its closing mark. Every item takes
at least one character, so there are at most as many as characters. -/
def items {σ : Type} (close : Char) (item : σ → Reader σ) (state : σ) (cs : List Char) :
    Except Fault (σ × List Char) :=
  go cs.length true state cs
where
  go : Nat → Bool → σ → List Char → Except Fault (σ × List Char)
    | 0, _, _, _ => .error .truncated
    | n + 1, first, state, cs => do
      match ← nextItem close first cs with
      | none => return (state, (skipBlanks cs).tail)
      | some cs =>
        let (state, rest) ← item state cs
        go n false state rest

/-- What is around a value that is passed over. -/
inductive Frame where
  | list | object
  deriving DecidableEq

def Frame.close : Frame → Char
  | .list => ']'
  | .object => '\x7d'

/-- What comes next where a value is passed over. -/
inductive Awaiting where
  | value
  | key
  | more
  deriving DecidableEq

/-- Passes over a number; there is no right way to end early within one. -/
def skipNumber (cs : List Char) : Except Fault (List Char) :=
  match numeral cs with
  | .ok (_, rest) => .ok rest
  | .error _ => .error .malformed

/-- Passes over a value that nobody asks for. Every step takes at least one character. -/
def skipValue (cs : List Char) : Except Fault (List Char) :=
  go (cs.length + 1) .value [] cs
where
  go : Nat → Awaiting → List Frame → List Char → Except Fault (List Char)
    | 0, _, _, _ => .error .truncated
    | _ + 1, .more, [], cs => .ok cs
    | n + 1, .more, frame :: stack, cs =>
      match skipBlanks cs with
      | [] => .error .truncated
      | c :: rest =>
        if c = frame.close then go n .more stack rest
        else if c = ',' then
          go n (match frame with | .list => .value | .object => .key) (frame :: stack) rest
        else .error .malformed
    | n + 1, .key, stack, cs =>
      match skipBlanks cs with
      | [] => .error .truncated
      | '"' :: rest => do
        let (_, rest) ← text false rest
        go n .value stack (← expect ':' rest)
      | _ => .error .malformed
    | n + 1, .value, stack, cs =>
      match skipBlanks cs with
      | [] => .error .truncated
      | '[' :: rest =>
        match skipBlanks rest with
        | ']' :: rest => go n .more stack rest
        | rest => go n .value (.list :: stack) rest
      | '\x7b' :: rest =>
        match skipBlanks rest with
        | '\x7d' :: rest => go n .more stack rest
        | rest => go n .key (.object :: stack) rest
      | 'n' :: rest => do go n .more stack (← word "ull".toList rest)
      | 't' :: rest => do go n .more stack (← word "rue".toList rest)
      | 'f' :: rest => do go n .more stack (← word "alse".toList rest)
      | '"' :: rest => do go n .more stack (← text false rest).2
      | '-' :: rest => do go n .more stack (← skipNumber rest)
      | rest => do go n .more stack (← skipNumber rest)

end SqlComposer.Json
