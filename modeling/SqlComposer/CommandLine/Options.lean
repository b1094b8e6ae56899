import SqlComposer.Compose.Basic
import SqlComposer.Json.Basic

/-! Options on the command line. Each option takes the next argument as its value, whatever it
looks like; all other arguments keep their order. -/
namespace SqlComposer.CommandLine

/-- Why arguments cannot be used. -/
inductive OptionFault where
  | noEnvironment
  | unknownEnvironment (name : String)
  | noAssignment
  | badAssignment (text : String)
  | noMigrations
  | unreadable (path : String) (fault : FileFault)
  | badMigrations (path : String) (fault : Json.Fault)
  | unknownOption (option : String)
  deriving DecidableEq, Repr

def OptionFault.message : OptionFault → String
  | .noEnvironment => "--env needs a value"
  | .unknownEnvironment name => Environment.unknownMessage name
  | .noAssignment => "--set needs key=value"
  | .badAssignment text => s!"--set expects key=value, got '{text}'"
  | .noMigrations => "--migrations needs a file"
  | .unreadable path fault => s!"{path}: {fault.message}"
  | .badMigrations path _ => s!"{path}: invalid migrations:"
  | .unknownOption option => s!"unknown option {option}"

/-- Arguments that have been read. -/
structure Arguments where
  positional : List String := []
  options : Options := {}
  deriving DecidableEq

/-- Reads the text at a path. -/
abbrev Read := String → Except FileFault String

/-- Reads the records in a JSON text. It is no part of this library. -/
abbrev ReadRecords := String → Except Json.Fault Migrations

/-- Steps that tell the paths that they read. -/
abbrev Reading := Traced String OptionFault

/-- A key and its value, parted by the first equals sign. -/
def assignment? (text : String) : Option (String × String) :=
  let key := text.toList.takeWhile (· ≠ '=')
  match text.toList.dropWhile (· ≠ '=') with
  | [] => none
  | _ :: value => some (String.ofList key, String.ofList value)

def isOption (argument : String) : Bool := argument.toList.take 2 = ['-', '-']

def setEnvironment (a : Arguments) (name : String) : Reading Arguments :=
  match Environment.ofName? name with
  | some e => pure { a with options := { a.options with environment := e } }
  | none => Traced.fail (.unknownEnvironment name)

def setOverride (a : Arguments) (text : String) : Reading Arguments :=
  match assignment? text with
  | some (key, value) => pure { a with options := a.options.set key value }
  | none => Traced.fail (.badAssignment text)

def setMigrations (records : ReadRecords) (read : Read) (a : Arguments) (path : String) :
    Reading Arguments := do
  Traced.tell path
  let text ← Traced.lift ((read path).mapError (.unreadable path))
  let migrations ← Traced.lift ((records text).mapError (.badMigrations path))
  return { a with options := { a.options with migrations := migrations } }

/-- Adds arguments from left to right. -/
def Arguments.addAll (records : ReadRecords) (read : Read) (a : Arguments) :
    List String → Reading Arguments
  | [] => pure a
  | "--env" :: name :: rest => do addAll records read (← setEnvironment a name) rest
  | "--set" :: text :: rest => do addAll records read (← setOverride a text) rest
  | "--migrations" :: path :: rest => do
    addAll records read (← setMigrations records read a path) rest
  | ["--env"] => Traced.fail .noEnvironment
  | ["--set"] => Traced.fail .noAssignment
  | ["--migrations"] => Traced.fail .noMigrations
  | argument :: rest =>
    if isOption argument then Traced.fail (.unknownOption argument)
    else addAll records read { a with positional := a.positional ++ [argument] } rest

end SqlComposer.CommandLine
