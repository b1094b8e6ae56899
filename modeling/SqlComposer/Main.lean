import SqlComposer.CommandLine.Run
import SqlComposer.Migration.Json
import SqlComposer.Template.Reader

/-! The program. Commands are pure: a command is run again with one more file read for as long as
it asks for a file that has not been read yet. -/
namespace SqlComposer.CommandLine

/-- What has been read so far, by its path. -/
abbrev FilesRead := List (String × Except FileFault String)

def FilesRead.read (files : FilesRead) : Read := fun path =>
  (files.lookup path).getD (.error .notFound)

def faultOf : IO.Error → FileFault
  | .noFileOrDirectory .. => .notFound
  | .inappropriateType _ 21 _ => .isADirectory
  | .inappropriateType .. => .notADirectory
  | .invalidArgument _ 22 _ => .nulInPath
  | .invalidArgument .. => .nameTooLong
  | e => .other (toString e)

def readText (path : String) : IO (Except FileFault String) := do
  match ← (IO.FS.readBinFile path).toBaseIO with
  | .error e => return .error (faultOf e)
  | .ok bytes =>
    match String.fromUTF8? bytes with
    | some text => return .ok text
    | none => return .error .notText

/-- Reads files until none is missing of those that a computation asks for. -/
partial def settle {α : Type} (files : FilesRead) (run : Read → α) (reads : α → List String) :
    IO α := do
  let a := run files.read
  match (reads a).find? fun path => (files.lookup path).isNone with
  | none => return a
  | some path => settle ((path, ← readText path) :: files) run reads

def logLimit : IO Level := do
  return ((← IO.getEnv "SQLM_LOG").bind Level.ofName?).getD .warn

def writeLog (log : List LogEntry) : IO Unit := do
  let limit ← logLimit
  for entry in log do
    match entry with
    | .record r => if limit.shows r.level then IO.eprintln r.line
    | .span .. => pure ()

def finish (o : Outcome) : IO UInt32 := do
  IO.eprint o.errors
  IO.print o.output
  return o.exit.toUInt32

/-- What the program is linked with. -/
def libraries : Libraries := ⟨Template.small, Migrations.ofJson⟩

/-- Compiles the input into the output, if it can be compiled. -/
def refresh (r : Recompiler) : IO (Except RecompileError Unit) := do
  let (_, once) ← settle []
    (fun read => ((compileFile libraries read r.options r.input).reads, r.text read)) (·.1)
  writeLog once.events
  match once.result with
  | .error e => return .error e
  | .ok text =>
    return (← (IO.FS.writeFile r.output text).toBaseIO).mapError fun e =>
      .file r.output (faultOf e)

/-- When a file was last written to, if it is there. -/
def writtenAt (path : String) : IO (Option IO.FS.SystemTime) := do
  let time : IO IO.FS.SystemTime := do
    return (← (← IO.FS.realPath path).metadata).modified
  return (← time.toBaseIO).toOption

/-- Looks at the input ten times a second. -/
partial def follow (r : Recompiler) (last : Option IO.FS.SystemTime) : IO UInt32 := do
  IO.sleep 100
  let now ← writtenAt r.input
  if now.isSome && now != last then
    if let .error e ← refresh r then writeLog [r.failure e]
  follow r now

def watch (r : Recompiler) : IO UInt32 := do
  let first ← writtenAt r.input
  if let .error e ← refresh r then IO.eprint (about r.input e.message)
  if first.isNone then finish (unwatchable r.input) else follow r first

end SqlComposer.CommandLine

open SqlComposer.CommandLine in
def main (arguments : List String) : IO UInt32 := do
  let command ← settle [] (command libraries · arguments) (·.reads)
  writeLog command.log
  match command.action with
  | .finish o => finish o
  | .watch o input output => watch (recompiler libraries o input output)
